import UnitFiles.Decode.Document
import UnitFiles.Proofs.RecordFields
import UnitFiles.Proofs.Revalidation

/-! The dynamic value of a document that went through a check. The check looks at one group of
options after another and reads each text only to see that it can be read; decoding goes through the
specs and reads the texts again. What the one accepts the other never refuses. -/
namespace UnitFiles
open Text Number

/-- The dynamic value of one text. A duration is checked, but stays text. -/
inductive Scalar.HasJson : Scalar → String → Json → Prop
  | string (raw : String) : HasJson .string raw (.text raw)
  | bool {raw : String} {b : Bool} (h : readBool raw = .ok b) : HasJson .bool raw (.bool b)
  | int {raw : String} {n : Int} (h : readInt raw = .ok n) : HasJson .int raw (.int n)
  | float {raw : String} {x : Double} (h : readFloat raw = .ok x) :
      HasJson .float raw (.ofDouble x)
  | duration {raw : String} {d : Duration} (h : readDuration raw = .ok d) :
      HasJson .duration raw (.text raw)

/-- The dynamic value of the texts of one option. -/
inductive OptionType.HasJson (t : OptionType) : List String → Json → Prop
  | list {values : List String} {items : List Json} (h : t.isList = true)
      (hitems : List.Forall₂ t.scalar.HasJson values items) : HasJson t values (.array items)
  | single {raw : String} {v : Json} (h : t.isList = false) (hv : t.scalar.HasJson raw v) :
      HasJson t [raw] v

/-- A section as an object: each option that is set has one field, and that has the name which the
spec gives the option. -/
structure Section.HasFields (spec : SectionSpec) (s : Section) (fields : Keyed Json) : Prop where
  ordered : fields.Ordered
  set : ∀ e ∈ s.entries, ∃! p, p ∈ fields ∧ sameName p.1 e.name = true
  value : ∀ p ∈ fields, ∃ o ∈ spec.options, o.name = p.1 ∧ s.has o.name = true ∧
    o.type.HasJson (s.values o.name) p.2

inductive Section.HasJson (spec : SectionSpec) (s : Section) : Json → Prop
  | object {fields : Keyed Json} (h : s.HasFields spec fields) : HasJson spec s (.object fields)

inductive SectionSpec.HasJson (spec : SectionSpec) : List Section → Json → Prop
  | one {s : Section} {v : Json} (h : s.HasJson spec v) : HasJson spec [s] v
  | several {sections : List Section} {items : List Json} (hcount : sections.length ≠ 1)
      (hitems : List.Forall₂ (Section.HasJson spec) sections items) :
      HasJson spec sections (.array items)

/-- A document as an object: each name of a section has one field, and that has the name as it is
first written. -/
structure Document.HasFields (spec : FileSpec) (d : Document) (fields : Keyed Json) : Prop where
  ordered : fields.Ordered
  name : ∀ name, (∃ v, (name, v) ∈ fields) ↔ ∃ s, d.get? name = some s ∧ s.name = name
  value : ∀ p ∈ fields, ∃ options, spec.get? p.1 = some options ∧
    options.HasJson (d.sectionsNamed p.1) p.2

section Values

theorem exists_mapAll_eq_ok {α β : Type} {f : α → Except Error β} {R : α → β → Prop} {l : List α}
    (h : ∀ a ∈ l, ∃ b, f a = .ok b ∧ R a b) :
    ∃ l', mapAll f l = .ok l' ∧ List.Forall₂ R l l' := by
  obtain ⟨l', hall⟩ := exists_forall₂_iff.mpr h
  exact ⟨l', mapAll_eq_ok_iff.mpr (hall.imp fun _ _ hab => hab.1), hall.imp fun _ _ hab => hab.2⟩

namespace Decoded

theorem toJsons_eq_map (items : List Decoded) : toJsons items = items.map toJson := by
  induction items with
  | nil => rfl
  | cons v rest ih => rw [toJsons, ih, List.map_cons]

theorem toJsonFields_eq_map (fields : List (String × Decoded)) :
    toJsonFields fields = fields.map fun p => (p.1, p.2.toJson) := by
  induction fields with
  | nil => rfl
  | cons p rest ih => rw [toJsonFields, ih, List.map_cons]

end Decoded

theorem typedScalar_of_check {t : OptionType} {raw : String} (h : t.check raw = .ok ()) :
    ∃ v, typedScalar t [raw] = .ok v ∧ t.scalar.HasJson raw v.toJson := by
  rw [OptionType.check] at h
  rw [typedScalar]
  cases hscalar : t.scalar with
  | string => exact ⟨.text raw, rfl, .string raw⟩
  | bool =>
    rw [hscalar] at h
    obtain ⟨b, hb, -⟩ := map_eq_ok_iff.mp h
    exact ⟨.bool b, congrArg (Except.map Decoded.bool) hb, .bool hb⟩
  | int =>
    rw [hscalar] at h
    obtain ⟨n, hn, -⟩ := map_eq_ok_iff.mp h
    exact ⟨.int n, congrArg (Except.map Decoded.int) hn, .int hn⟩
  | float =>
    rw [hscalar] at h
    obtain ⟨x, hx, -⟩ := map_eq_ok_iff.mp h
    exact ⟨.double x, congrArg (Except.map Decoded.double) hx, .float hx⟩
  | duration =>
    rw [hscalar] at h
    obtain ⟨d, hd, -⟩ := map_eq_ok_iff.mp h
    exact ⟨.text raw, rfl, .duration hd⟩

theorem check_element (t : OptionType) (raw : String) : t.element.check raw = t.check raw := by
  rw [OptionType.check, OptionType.check, OptionType.scalar_element]

theorem OptionSpec.valueOfType_of_checkValues {o : OptionSpec} {values : List String}
    (h : o.checkValues values = .ok ()) (hset : values ≠ []) :
    ∃ v, valueOfType o.type values = .ok v ∧ o.type.HasJson values v.toJson := by
  obtain ⟨honce, -, hvalues⟩ := OptionSpec.checkValues_eq_ok_iff.mp h
  have hcheck : ∀ raw ∈ values, o.type.check raw = .ok () := fun raw hraw =>
    (OptionSpec.checkValue_eq_ok_iff.mp (hvalues raw hraw)).2
  rw [valueOfType]
  cases hlist : o.type.isList with
  | false =>
    have hlength : values.length = 1 :=
      Nat.le_antisymm (honce hlist) (List.length_pos_iff.mpr hset)
    obtain ⟨raw, rfl⟩ := List.length_eq_one_iff.mp hlength
    obtain ⟨v, hv, hjson⟩ := typedScalar_of_check (hcheck raw (List.mem_singleton_self raw))
    exact ⟨v, hv, .single hlist hjson⟩
  | true =>
    have hitems : ∀ raw ∈ values, ∃ v, typedScalar o.type.element [raw] = .ok v ∧
        o.type.scalar.HasJson raw v.toJson := by
      intro raw hraw
      have helement := typedScalar_of_check ((check_element o.type raw).trans (hcheck raw hraw))
      rwa [OptionType.scalar_element] at helement
    obtain ⟨items, hall, hjson⟩ := exists_mapAll_eq_ok hitems
    refine ⟨.seq items, by rw [if_pos rfl, hall]; rfl, ?_⟩
    rw [Decoded.toJson, Decoded.toJsons_eq_map]
    exact .list hlist (List.forall₂_map_right_iff.mpr hjson)

end Values

/-- A map whose keys are distinct and whose values can be read has one field for each of them. -/
theorem wholeMap_eq_ok {α : Type} {l : List α} (slot : α → Slot) (R : α → Json → Prop)
    (distinct : (l.map fun a => (slot a).key).Nodup)
    (h : ∀ a ∈ l, ∃ v, (slot a).whole = .ok v ∧ R a v.toJson) :
    ∃ (m : Decoded) (fields : Keyed Json), wholeMap (l.map slot) = .ok m ∧
      m.toJson = .object fields ∧ fields.Ordered ∧ (∀ a ∈ l, ∃ v, ((slot a).key, v) ∈ fields) ∧
      ∀ p ∈ fields, ∃ a ∈ l, (slot a).key = p.1 ∧ R a p.2 := by
  obtain ⟨entries, hentries⟩ : ∃ entries : List (String × Decoded), List.Forall₂ (fun a e =>
      (e.1 = (slot a).key ∧ (slot a).whole = .ok e.2) ∧ R a e.2.toJson) l entries := by
    rw [exists_forall₂_iff]
    intro a ha
    obtain ⟨v, hv, hR⟩ := h a ha
    exact ⟨((slot a).key, v), ⟨rfl, hv⟩, hR⟩
  have hkeys : entries.map Prod.fst = l.map fun a => (slot a).key :=
    map_eq_map_iff_forall₂.mpr (hentries.flip.imp fun _ _ he => he.1.1)
  have hfields : ∀ p, p ∈ Keyed.ofList (Decoded.toJsonFields entries) ↔
      ∃ e ∈ entries, (e.1, e.2.toJson) = p := by
    intro p
    rw [Decoded.toJsonFields_eq_map, Keyed.mem_ofList, List.mem_map]
    rw [List.map_map]
    exact hkeys ▸ distinct
  refine ⟨.map entries, _, ?_, rfl, Keyed.ordered_ofList _, ?_, ?_⟩
  · refine wholeMap_eq_ok_iff.mpr ⟨entries, ?_, rfl⟩
    rw [List.forall₂_map_left_iff]
    exact hentries.imp fun _ _ he => he.1
  · intro a ha
    obtain ⟨e, he, ⟨hkey, -⟩, -⟩ := exists_of_mem_forall₂ hentries.flip ha
    exact ⟨e.2.toJson, (hfields _).mpr ⟨e, he, by rw [hkey]⟩⟩
  · intro p hp
    obtain ⟨e, he, rfl⟩ := (hfields p).mp hp
    obtain ⟨a, ha, ⟨hkey, -⟩, hR⟩ := exists_of_mem_forall₂ hentries he
    exact ⟨a, ha, hkey.symm, hR⟩

namespace SectionSpec
variable {spec : SectionSpec}

/-- Every default that may be put in is a value of its type. -/
def DefaultsFit (spec : SectionSpec) : Prop :=
  ∀ o ∈ spec.options, o.required = false → o.default ≠ "" → o.type.check o.default = .ok ()

instance (spec : SectionSpec) : Decidable spec.DefaultsFit :=
  inferInstanceAs (Decidable (∀ o ∈ spec.options, o.required = false → o.default ≠ "" →
    o.type.check o.default = .ok ()))

/-- Of distinct names, each has the type of its only option. -/
theorem DefaultsFit.names (fit : spec.DefaultsFit) (distinct : spec.Distinct) :
    spec.DefaultsFitNames := by
  intro o ho hoptional hdefault first hfirst
  rw [distinct.get?_eq ho (sameName_refl o.name)] at hfirst
  cases hfirst
  exact fit o ho hoptional hdefault

theorem Distinct.exists_valueOfType (distinct : spec.Distinct) {s : Section}
    (h : spec.checkEntries s.entries = .ok ()) {o : OptionSpec} (ho : o ∈ spec.options)
    (hset : s.has o.name = true) :
    ∃ v, valueOfType o.type (s.values o.name) = .ok v ∧
      o.type.HasJson (s.values o.name) v.toJson := by
  have hne : Entry.named o.name s.entries ≠ [] := Section.has_iff.mp hset
  apply OptionSpec.valueOfType_of_checkValues
  · exact checkValues_of_checkEntries h (distinct.get?_eq ho (sameName_refl o.name)) hne
  · simpa [Section.values_eq] using hne

theorem Distinct.exists_wholeSection (distinct : spec.Distinct) {s : Section}
    (h : spec.checkEntries s.entries = .ok ()) :
    ∃ v, wholeSection false spec s = .ok v ∧ s.HasJson spec v.toJson := by
  have hnames : ((spec.options.filter fun o => s.has o.name).map OptionSpec.name).Nodup :=
    nodup_of_distinct (List.pairwise_map.mpr (List.Pairwise.filter _ distinct))
  obtain ⟨m, fields, hm, hjson, hordered, hput, hfields⟩ := wholeMap_eq_ok
    (fun o : OptionSpec =>
      ⟨o.name, valuesAs o.type (s.values o.name), valueOfType o.type (s.values o.name)⟩)
    (fun o v => o.type.HasJson (s.values o.name) v) hnames (by
      intro o ho
      obtain ⟨hmem, hset⟩ := List.mem_filter.mp ho
      exact distinct.exists_valueOfType h hmem hset)
  refine ⟨m, hm, hjson ▸ .object ⟨hordered, ?_, ?_⟩⟩
  · intro e he
    obtain ⟨o, ho, -⟩ := (checkEntries_eq_ok_iff.mp h).1 e he
    have hname := sameName_of_get? ho
    have hset : s.has o.name = true := by
      rw [Section.has_iff, Entry.named_congr hname]
      exact List.ne_nil_of_mem (Entry.mem_named_self he)
    obtain ⟨v, hv⟩ := hput o (List.mem_filter.mpr ⟨mem_of_get? ho, hset⟩)
    refine ⟨(o.name, v), ⟨hv, hname⟩, ?_⟩
    rintro ⟨name, v'⟩ ⟨hp, hother⟩
    obtain ⟨o', ho', rfl, -⟩ := hfields _ hp
    -- two options of the spec that have the name of one entry are the same option
    cases ho.symm.trans (distinct.get?_eq (List.mem_filter.mp ho').1 hother)
    cases (hordered.mem_iff.mp hv).symm.trans (hordered.mem_iff.mp hp)
    rfl
  · intro p hp
    obtain ⟨o, ho, hname, hvalue⟩ := hfields p hp
    obtain ⟨hmem, hset⟩ := List.mem_filter.mp ho
    exact ⟨o, hmem, hname, hset, hvalue⟩

theorem Distinct.exists_wholeSections (distinct : spec.Distinct) {sections : List Section}
    (h : ∀ s ∈ sections, spec.checkEntries s.entries = .ok ()) :
    ∃ v, wholeSections false spec sections = .ok v ∧ spec.HasJson sections v.toJson := by
  have hsections : ∀ s ∈ sections, ∃ v, wholeSection false spec s = .ok v ∧
      s.HasJson spec v.toJson := fun s hs => distinct.exists_wholeSection (h s hs)
  by_cases hone : sections.length = 1
  · obtain ⟨s, rfl⟩ := List.length_eq_one_iff.mp hone
    obtain ⟨v, hv, hjson⟩ := hsections s (List.mem_singleton_self s)
    exact ⟨v, hv, .one hjson⟩
  · obtain ⟨items, hall, hjson⟩ := exists_mapAll_eq_ok hsections
    refine ⟨.seq items, ?_, ?_⟩
    · rw [wholeSections, hall]
      · rfl
      · rintro s rfl
        exact hone rfl
    · rw [Decoded.toJson, Decoded.toJsons_eq_map]
      exact .several hone (List.forall₂_map_right_iff.mpr hjson)

end SectionSpec

namespace Document

theorem mem_names_go {seen : List String} {sections : List Section} {name : String} :
    name ∈ names.go seen sections ↔ (∀ n ∈ seen, sameName n name = false) ∧
      ∃ s, sections.find? (fun s => sameName s.name name) = some s ∧ s.name = name := by
  induction sections generalizing seen with
  | nil => simp [names.go]
  | cons s rest ih =>
    rw [names.go, List.find?_cons]
    split
    · rename_i hseen
      obtain ⟨n, hn, hsame⟩ := List.any_eq_true.mp hseen
      rw [ih]
      refine and_congr_right fun hnew => ?_
      rw [sameName_comm s.name, ← sameName_congr hsame, sameName_comm, hnew n hn]
    · rename_i hseen
      have hfirst : ∀ n ∈ seen, sameName n s.name = false := by simpa using hseen
      rw [List.mem_cons, ih, List.forall_mem_cons]
      cases hsame : sameName s.name name with
      | true =>
        simp only [reduceCtorEq, false_and, or_false, Option.some.injEq, exists_eq_left']
        constructor
        · rintro rfl
          exact ⟨hfirst, rfl⟩
        · exact fun h => h.2.symm
      | false =>
        have hne : name ≠ s.name := by
          rintro rfl
          rw [sameName_refl] at hsame
          cases hsame
        simp [hne]

theorem mem_names {d : Document} {name : String} :
    name ∈ d.names ↔ ∃ s, d.get? name = some s ∧ s.name = name := by
  rw [names, mem_names_go]
  exact and_iff_right (fun n hn => nomatch hn)

theorem distinct_names_go (seen : List String) (sections : List Section) :
    (names.go seen sections).Pairwise fun a b => sameName a b = false := by
  induction sections generalizing seen with
  | nil => exact List.Pairwise.nil
  | cons s rest ih =>
    rw [names.go]
    split
    · exact ih seen
    · exact List.pairwise_cons.mpr
        ⟨fun n hn => (mem_names_go.mp hn).1 s.name List.mem_cons_self, ih (s.name :: seen)⟩

theorem nodup_names (d : Document) : d.names.Nodup :=
  nodup_of_distinct (distinct_names_go [] d.sections)

end Document

namespace FileSpec
variable {spec : FileSpec} {d d' : Document}

def DefaultsFit (spec : FileSpec) : Prop := ∀ p ∈ spec.sections, p.2.DefaultsFit

instance (spec : FileSpec) : Decidable spec.DefaultsFit :=
  inferInstanceAs (Decidable (∀ p ∈ spec.sections, p.2.DefaultsFit))

theorem DefaultsFit.names (fit : spec.DefaultsFit) (distinct : spec.Distinct) :
    spec.DefaultsFitNames :=
  fun p hp => (fit p hp).names (distinct p hp)

theorem Distinct.exists_sectionsNamed (distinct : spec.Distinct) (valid : spec.Valid d)
    {name : String} {options : SectionSpec} (h : spec.get? name = some options) :
    ∃ v, wholeSections false options (d.sectionsNamed name) = .ok v ∧
      options.HasJson (d.sectionsNamed name) v.toJson := by
  apply (distinct.of_get? h).exists_wholeSections
  intro s hs
  obtain ⟨hmem, hname⟩ := Section.mem_called.mp hs
  obtain ⟨found, hfound, hcheck⟩ := valid s hmem
  rw [get?_congr hname, h] at hfound
  cases hfound
  exact hcheck

theorem Distinct.exists_decode (distinct : spec.Distinct) (valid : spec.Valid d) :
    ∃ fields, spec.decode false d .any = .ok (.dynamic (.object fields)) ∧
      d.HasFields spec fields := by
  have hnamed : ∀ name ∈ d.names, ∃ options, spec.get? name = some options := by
    intro name hname
    obtain ⟨s, hs, rfl⟩ := Document.mem_names.mp hname
    obtain ⟨options, hoptions, -⟩ := valid s (List.mem_of_find?_eq_some hs)
    exact ⟨options, hoptions⟩
  obtain ⟨specs, hspecs, hnames, hget⟩ := exists_specsFor hnamed
  obtain ⟨m, fields, hm, hjson, hordered, hput, hfields⟩ := wholeMap_eq_ok
    (fun p : String × SectionSpec => ⟨p.1, sectionsAs false p.2 (d.sectionsNamed p.1),
      wholeSections false p.2 (d.sectionsNamed p.1)⟩)
    (fun p v => p.2.HasJson (d.sectionsNamed p.1) v) (hnames ▸ d.nodup_names)
    fun p hp => distinct.exists_sectionsNamed valid (hget p hp)
  refine ⟨fields, ?_, hordered, ?_, ?_⟩
  · have hmap : documentAs false spec d .any = .ok (.dynamic m.toJson) := by
      change documentAsMap false spec d .any = _
      rw [documentAsMap, hspecs]
      dsimp only
      rw [decodeSlots, Document.slots, hm]
      rfl
    rw [decode_eq, hmap, hjson]
    rfl
  · intro name
    rw [← Document.mem_names, ← hnames, List.mem_map]
    constructor
    · rintro ⟨v, hv⟩
      obtain ⟨p, hp, hname, -⟩ := hfields _ hv
      exact ⟨p, hp, hname⟩
    · rintro ⟨p, hp, rfl⟩
      exact hput p hp
  · intro q hq
    obtain ⟨p, hp, hname, hvalue⟩ := hfields q hq
    exact ⟨p.2, hname ▸ hget p hp, hname ▸ hvalue⟩

/-- What a check hands out is decoded without a failure, into the object of its typed values. -/
theorem decode_validate (distinct : spec.Distinct) (fit : spec.DefaultsFit)
    (h : spec.validate d = .ok d') :
    ∃ fields, spec.decode false d' .any = .ok (.dynamic (.object fields)) ∧
      d'.HasFields spec fields :=
  distinct.exists_decode ((fit.names distinct).valid_validate h)

/-- A spec with an option of each way to hold values. -/
def serverSpec : FileSpec :=
  ⟨[("server", ⟨[{ name := "Port", type := .intList }, { name := "Debug", type := .bool },
    { name := "Wait", type := .duration, default := "5s" }]⟩)]⟩

/-- Two sections of one name and options of one name, in different spellings. -/
def servers : Document :=
  ⟨"app.unit", [⟨"Server", [⟨"PORT", "80"⟩, ⟨"Wait", "1m"⟩, ⟨"port", "0x1bb"⟩]⟩,
    ⟨"SERVER", [⟨"debug", "Yes"⟩]⟩]⟩

def checkedServers : Document :=
  ⟨"app.unit", [⟨"Server", [⟨"PORT", "80"⟩, ⟨"Wait", "1m"⟩, ⟨"port", "0x1bb"⟩]⟩,
    ⟨"SERVER", [⟨"debug", "Yes"⟩, ⟨"Wait", "5s"⟩]⟩]⟩

theorem decode_validate_servers :
    serverSpec.Distinct ∧ serverSpec.DefaultsFit ∧
      serverSpec.validate servers = .ok checkedServers ∧
      ∃ fields, serverSpec.decode false checkedServers .any = .ok (.dynamic (.object fields)) ∧
        checkedServers.HasFields serverSpec fields := by
  have hdistinct : serverSpec.Distinct := by decide +kernel
  have hfit : serverSpec.DefaultsFit := by decide +kernel
  have hvalid : serverSpec.validate servers = .ok checkedServers := by decide +kernel
  exact ⟨hdistinct, hfit, hvalid, decode_validate hdistinct hfit hvalid⟩

example :
    (serverSpec.decode false checkedServers .any).map (fun v => v.toJson.render) =
      .ok (Json.object [("Server", .array [
        .object [("Port", .array [.int 80, .int 443]), ("Wait", .text "1m")],
        .object [("Debug", .bool true), ("Wait", .text "5s")]])]).render := by
  decide +kernel

end FileSpec
end UnitFiles

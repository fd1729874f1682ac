import UnitFiles.Proofs.FlatDocuments

/-! An application that is flattened into a record of its own, beside the application that the same
document is decoded to. -/
namespace UnitFiles.RecordKind
open Records
variable {spec : FileSpec} {d : Document}

/-- Only the lenient record passes a failure over. -/
theorem decode_eq {k : RecordKind} (h : k ≠ lenient) (strict : Bool) :
    k.decode spec strict d = spec.decode strict d k.shape := by
  rw [decode, passedOver?, if_neg h, FileSpec.decode]

theorem decode_eq_ok_iff {k : RecordKind} (h : k ≠ lenient) {strict : Bool} {v : Decoded} :
    k.decode spec strict d = .ok v ↔ documentAs strict spec d k.shape = .ok v := by
  rw [decode_eq h, FileSpec.decode_eq, asMissingSection.eq_def]
  split <;> simp [*]

theorem decode_appConfig_spelledAs (declared : spec.DeclaresExactly appType)
    (h : d.Spells ["Global", "LogFile"]) (strict : Bool) (v : Decoded) :
    appConfig.decode spec strict (d.spelledAs ["Global", "LogFile"]) = .ok v ↔
      appConfig.decode spec strict d = .ok v := by
  have hnames : ∀ f ∈ appType.fieldsIn SectionType.shapes, f.1 ∈ ["Global", "LogFile"] := by
    intro f hf
    exact List.mem_map_of_mem (f := Prod.fst) hf
  rw [decode_eq_ok_iff (k := appConfig) (by decide), decode_eq_ok_iff (k := appConfig) (by decide),
    ← shape_appType, documentAsRecord_eq_ok_iff declared, documentAsRecord_eq_ok_iff declared]
  refine exists_congr fun values => and_congr_left fun _ => forall₂_congr_mem fun f hf p => ?_
  simp only [Settles, has_eq, h.sectionsNamed_spelledAs appType.distinct (hnames f hf)]

theorem decode_nested_strict (v : Decoded) : nested.decode spec true d ≠ .ok v := by
  rw [ne_eq, decode_eq_ok_iff (k := nested) (by decide)]
  intro h
  obtain ⟨entries, hentries, w, hw, -⟩ := documentAs_flat_eq_ok_iff.mp h
  have hnil : entries = [] := by
    rw [List.eq_nil_iff_forall_not_mem]
    intro e he
    obtain ⟨name, hname, -, options, -, hwhole⟩ := exists_of_mem_forall₂ hentries he
    obtain ⟨s, hs⟩ := List.exists_mem_of_ne_nil _ (sectionsNamed_ne_nil hname)
    obtain ⟨w, hw⟩ := exists_wholeSections_iff.mp ⟨_, hwhole⟩ s hs
    cases hw
  -- without any section the global settings are missing
  rw [hnil] at hw
  cases hw

theorem decode_nested_eq_ok_iff (declared : spec.DeclaresExactly appType) {v : Decoded} :
    nested.decode spec false d = .ok v ↔
      spec.Types d ∧ ((d.spelledAs ["Global", "LogFile"]).sectionsNamed "LogFile").length ≠ 1 ∧
        ∃ fields, appConfig.decode spec false (d.spelledAs ["Global", "LogFile"]) =
          .ok (.record fields) ∧ .map fields = v := by
  have hflat := @documentAs_flat_iff spec appType d declared v
  rw [decode_eq_ok_iff (k := nested) (by decide)]
  refine hflat.trans (and_congr_right fun _ => and_congr ?_ ?_)
  · -- of the two fields the log files are the list
    rw [appType, List.forall_mem_cons, List.forall_mem_singleton]
    exact ⟨fun h => h.2 rfl, fun h => ⟨by simp [FieldType.isList], fun _ => h⟩⟩
  · simp only [decode_eq_ok_iff (k := appConfig) (by decide)]
    rfl

theorem exists_record_of_decode (declared : spec.DeclaresExactly appType) {strict : Bool}
    {v : Decoded} (h : appConfig.decode spec strict d = .ok v) : ∃ fields, .record fields = v := by
  have hdocument := (decode_eq_ok_iff (k := appConfig) (by decide)).mp h
  obtain ⟨fields, -, rfl⟩ := (documentAsRecord_eq_ok_iff declared).mp hdocument
  exact ⟨fields, rfl⟩

/-- An application that is flattened is the application that the document is decoded to, if all
sections can be read as typed values, the names are first written as those of the fields and the
number of log files is not one. In general it is the application without the sections that are
first written in another spelling, and it is decoded only if all sections can be read and one log
file is not alone. In strict mode it never is. -/
theorem decode_nested (declared : spec.DeclaresExactly appType) (d : Document) :
    (spec.Types d → d.Spells ["Global", "LogFile"] → (d.sectionsNamed "LogFile").length ≠ 1 →
      (∀ fields, nested.decode spec false d = .ok (.map fields) ↔
        appConfig.decode spec false d = .ok (.record fields)) ∧
      ((∃ v, nested.decode spec false d = .ok v) ↔ ∃ v, appConfig.decode spec false d = .ok v)) ∧
    (∀ v, nested.decode spec false d = .ok v ↔
      spec.Types d ∧ ((d.spelledAs ["Global", "LogFile"]).sectionsNamed "LogFile").length ≠ 1 ∧
        ∃ fields, appConfig.decode spec false (d.spelledAs ["Global", "LogFile"]) =
          .ok (.record fields) ∧ .map fields = v) ∧
    ∀ v, nested.decode spec true d ≠ .ok v := by
  refine ⟨fun htypes hspells hlength => ?_, fun _ => decode_nested_eq_ok_iff declared,
    decode_nested_strict⟩
  have hsame := fun v => decode_appConfig_spelledAs declared hspells false v
  have hrecords : ∀ fields, nested.decode spec false d = .ok (.map fields) ↔
      appConfig.decode spec false d = .ok (.record fields) := by
    intro fields
    rw [decode_nested_eq_ok_iff declared,
      hspells.sectionsNamed_spelledAs appType.distinct (by simp)]
    simp only [hsame, htypes, hlength, Decoded.map.injEq, exists_eq_right, ne_eq, not_false_eq_true,
      true_and]
  refine ⟨hrecords, ?_⟩
  constructor
  · rintro ⟨v, hv⟩
    obtain ⟨-, -, fields, -, rfl⟩ := (decode_nested_eq_ok_iff declared).mp hv
    exact ⟨_, (hrecords fields).mp hv⟩
  · rintro ⟨v, hv⟩
    obtain ⟨fields, rfl⟩ := exists_record_of_decode declared hv
    exact ⟨_, (hrecords fields).mpr hv⟩

def daemonSpec : FileSpec :=
  .ofList [
    ("Global", ⟨[{ name := "Verbose", type := .bool }, { name := "Workers", type := .int },
      { name := "Name", aliases := ["Title"] }, { name := "Mode" }]⟩),
    ("LogFile", ⟨[{ name := "Path", required := true }, { name := "Fields", type := .stringList },
      { name := "Rotate", type := .bool },
      { name := "MaxAge", type := .duration, default := "24h" },
      { name := "MaxSize", type := .int }, { name := "Level" }]⟩)]

/-- The second log file is spelled in another way than the first one. -/
def twoLogFiles : Document :=
  ⟨"app.unit", [⟨"Global", [⟨"Workers", "0x10"⟩]⟩, ⟨"LogFile", [⟨"Path", "/a"⟩, ⟨"MaxAge", "1h"⟩]⟩,
    ⟨"logfile", [⟨"path", "/b"⟩, ⟨"Level", "info"⟩]⟩]⟩

def oneLogFile : Document := { twoLogFiles with sections := twoLogFiles.sections.take 2 }

theorem decode_nested_twoLogFiles :
    daemonSpec.DeclaresExactly appType ∧ daemonSpec.Types twoLogFiles ∧
      ∃ fields, appConfig.decode daemonSpec false twoLogFiles = .ok (.record fields) ∧
        nested.decode daemonSpec false twoLogFiles = .ok (.map fields) := by
  have declared : daemonSpec.DeclaresExactly appType := by decide +kernel
  have htypes : daemonSpec.Types twoLogFiles := by decide +kernel
  have hspells : twoLogFiles.Spells ["Global", "LogFile"] := by decide +kernel
  have hlength : (twoLogFiles.sectionsNamed "LogFile").length ≠ 1 := by decide +kernel
  have hsome : (appConfig.decode daemonSpec false twoLogFiles).toOption.isSome = true := by
    decide +kernel
  obtain ⟨hboth, hnested, -⟩ := decode_nested declared twoLogFiles
  obtain ⟨hsame, hsuccess⟩ := hboth htypes hspells hlength
  obtain ⟨v, hv⟩ := hsuccess.mpr (isSome_toOption_iff.mp hsome)
  obtain ⟨-, -, fields, -, rfl⟩ := (hnested v).mp hv
  exact ⟨declared, htypes, fields, (hsame fields).mp hv, hv⟩

/-- With one log file the application can be decoded, but not flattened. -/
theorem decode_nested_oneLogFile :
    daemonSpec.DeclaresExactly appType ∧
      ¬((∃ v, nested.decode daemonSpec false oneLogFile = .ok v) ↔
        ∃ v, appConfig.decode daemonSpec false oneLogFile = .ok v) := by
  simp only [← isSome_toOption_iff]
  decide +kernel

end UnitFiles.RecordKind

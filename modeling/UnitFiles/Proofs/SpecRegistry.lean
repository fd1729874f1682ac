import Mathlib.Data.List.Induction
import UnitFiles.Proofs.SharedNames
import UnitFiles.Proofs.SpecRows
import UnitFiles.Proofs.SpecText

/-! Specs as maps from names in any spelling to sections. What a look-up finds is said of the
insertions that made the spec, whether one by one or all at once, and of the text it was loaded
from. A spec whose names were never brought to lowercase is searched by comparing names. -/
namespace UnitFiles
open Text Json

namespace FileSpec

/-- A spec together with the sections that were inserted into it, in their order. -/
inductive Built : List (String × SectionSpec) → FileSpec → Prop
  | ofList (sections : List (String × SectionSpec)) : Built sections (ofList sections)
  | insert {history : List (String × SectionSpec)} {spec : FileSpec} (h : Built history spec)
      (name : String) (s : SectionSpec) : Built (history ++ [(name, s)]) (spec.insert name s)

/-- What becomes of a text that can be read and has no unknown keys, with the spec in it as it is
written. -/
inductive Loading : FileSpec → Except Error FileSpec → Prop
  | json {text : String} {raw : FileSpec}
      (h : (tree? text).bind (ofTree? annotationDepth true) = some raw) :
      Loading raw (ofJsonText text)
  | toml {path text : String} {fields : Toml.Fields} {raw : FileSpec}
      (hread : Toml.read? text = some fields)
      (htree : ofTree? text.length false (Toml.table .explicit fields).toTree = some raw)
      (hknown : Toml.stray fields = []) : Loading raw (ofToml path text)

def Loaded (spec : FileSpec) : Prop :=
  (∃ text, ofJsonText text = .ok spec) ∨ ∃ path text, ofToml path text = .ok spec

variable {history : List (String × SectionSpec)} {spec raw : FileSpec}
  {result : Except Error FileSpec} {name : String} {s : SectionSpec}

section Building

@[simp] theorem ofList_concat (history : List (String × SectionSpec)) (name : String)
    (s : SectionSpec) : ofList (history ++ [(name, s)]) = (ofList history).insert name s := by
  simp [ofList]

theorem Built.eq_ofList (h : Built history spec) : spec = FileSpec.ofList history := by
  induction h with
  | ofList sections => rfl
  | insert _ name s ih => rw [ofList_concat, ← ih]

theorem Built.lowercase (h : Built history spec) : spec.Lowercase :=
  Inserted.lowercase ⟨history, h.eq_ofList.symm⟩

theorem get?_ofList (history : List (String × SectionSpec)) (name : String) :
    (ofList history).get? name =
      (history.reverse.find? fun p => sameName p.1 name).map Prod.snd := by
  induction history using List.reverseRecOn with
  | nil => rfl
  | append_singleton history p ih =>
    obtain ⟨n, s⟩ := p
    rw [ofList_concat, get?_insert, ih, List.reverse_concat, List.find?_cons]
    cases sameName n name <;> rfl

theorem Built.get?_eq (h : Built history spec) (name : String) :
    spec.get? name = (history.reverse.find? fun p => sameName p.1 name).map Prod.snd := by
  rw [h.eq_ofList, get?_ofList]

end Building

section Lookup

/-- Among lowercase names a comparison finds nothing that the lowercase form of the name does not
find. -/
theorem Lowercase.get?_eq (h : spec.Lowercase) (name : String) :
    spec.get? name = Keyed.get? (fold name) spec.sections := by
  rw [get?]
  cases hexact : Keyed.get? (fold name) spec.sections with
  | some s => rfl
  | none =>
    have hnone : (spec.sections.find? fun p => sameName p.1 name) = none := by
      rw [List.find?_eq_none]
      intro p hp hsame
      have hkey : p.1 = fold name := (h.lower p hp).symm.trans (sameName_iff.mp hsame)
      have hmem : (fold name, p.2) ∈ spec.sections := hkey ▸ hp
      rw [h.ordered.mem_iff, hexact] at hmem
      cases hmem
    rw [hnone]
    rfl

theorem Lowercase.mem_sections_iff (h : spec.Lowercase) :
    (name, s) ∈ spec.sections ↔ fold name = name ∧ spec.get? name = some s := by
  constructor
  · intro hmem
    have hname : fold name = name := h.lower _ hmem
    refine ⟨hname, ?_⟩
    rw [h.get?_eq, hname]
    exact h.ordered.mem_iff.mp hmem
  · rintro ⟨hname, hget⟩
    rw [h.get?_eq, hname] at hget
    exact h.ordered.mem_iff.mpr hget

theorem isSome_get?_iff (spec : FileSpec) (name : String) :
    (spec.get? name).isSome = true ↔ ∃ p ∈ spec.sections, sameName p.1 name = true := by
  constructor
  · intro h
    rw [get?, Option.orElse_eq_orElse, Option.orElse_eq_or, Option.isSome_or, Bool.or_eq_true,
      Keyed.get?, Option.isSome_map, Option.isSome_map, List.find?_isSome, List.find?_isSome] at h
    rcases h with ⟨p, hp, hkey⟩ | hsame
    · exact ⟨p, hp, by rw [beq_iff_eq.mp hkey, sameName_fold_left, sameName_refl]⟩
    · exact hsame
  · intro h
    rw [get?, Option.orElse_eq_orElse, Option.orElse_eq_or, Option.isSome_or, Option.isSome_map,
      List.find?_isSome.mpr h, Bool.or_true]

theorem Built.mem_names_iff (h : Built history spec) :
    name ∈ spec.sections.map Prod.fst ↔ ∃ p ∈ history, fold p.1 = name := by
  constructor
  · intro hname
    obtain ⟨⟨_, s⟩, hp, rfl⟩ := List.mem_map.mp hname
    obtain ⟨hlower, hget⟩ := h.lowercase.mem_sections_iff.mp hp
    rw [h.get?_eq, Option.map_eq_some_iff] at hget
    obtain ⟨q, hq, -⟩ := hget
    have hsame := List.find?_some hq
    exact ⟨q, List.mem_reverse.mp (List.mem_of_find?_eq_some hq),
      (sameName_iff.mp hsame).trans hlower⟩
  · rintro ⟨p, hp, rfl⟩
    have hfound : (spec.get? (fold p.1)).isSome = true := by
      rw [h.get?_eq, Option.isSome_map, List.find?_isSome]
      exact ⟨p, List.mem_reverse.mpr hp, by rw [sameName_fold, sameName_refl]⟩
    obtain ⟨s, hs⟩ := Option.isSome_iff_exists.mp hfound
    exact List.mem_map.mpr
      ⟨(fold p.1, s), h.lowercase.mem_sections_iff.mpr ⟨fold_fold p.1, hs⟩, rfl⟩

end Lookup

section Loads

theorem normalized_go_eq (out : FileSpec) (sections : List (String × SectionSpec)) :
    normalized.go out sections =
      match sections.find? fun p => p.2.options.isEmpty with
      | some p => .error (.context p.1 .noOptions)
      | none => .ok (sections.foldl (fun spec p => spec.insert p.1 p.2) out) := by
  induction sections generalizing out with
  | nil => rfl
  | cons p rest ih =>
    obtain ⟨name, s⟩ := p
    rw [normalized.go, List.find?_cons]
    cases hempty : s.options.isEmpty with
    | true => rfl
    | false => simpa using ih (out.insert name s)

theorem normalized_eq (spec : FileSpec) :
    spec.normalized =
      match spec.sections.find? fun p => p.2.options.isEmpty with
      | some p => .error (.context p.1 .noOptions)
      | none => .ok (ofList spec.sections) := normalized_go_eq empty spec.sections

theorem normalized_eq_ok_iff :
    raw.normalized = .ok spec ↔
      (∀ p ∈ raw.sections, p.2.options ≠ []) ∧ ofList raw.sections = spec := by
  rw [normalized_eq]
  split
  · rename_i p hp
    have hempty := List.find?_some hp
    simp only [List.isEmpty_iff] at hempty
    have hmem := List.mem_of_find?_eq_some hp
    simp only [reduceCtorEq, false_iff, not_and]
    exact fun hsome => absurd hempty (hsome p hmem)
  · rename_i hnone
    rw [List.find?_eq_none] at hnone
    simp only [List.isEmpty_iff] at hnone
    simp only [Except.ok.injEq]
    exact ⟨fun h => ⟨hnone, h⟩, fun h => h.2⟩

theorem normalized_noOptions_iff :
    (∃ e, raw.normalized = .error e ∧ e.root = .noOptions) ↔
      ∃ p ∈ raw.sections, p.2.options = [] := by
  rw [normalized_eq]
  split
  · rename_i p hp
    have hempty := List.find?_some hp
    simp only [List.isEmpty_iff] at hempty
    exact iff_of_true ⟨_, rfl, rfl⟩ ⟨p, List.mem_of_find?_eq_some hp, hempty⟩
  · rename_i hnone
    rw [List.find?_eq_none] at hnone
    simp only [List.isEmpty_iff] at hnone
    refine iff_of_false ?_ ?_
    · rintro ⟨e, he, -⟩
      cases he
    · rintro ⟨p, hp, hempty⟩
      exact hnone p hp hempty

theorem Loading.eq_normalized (h : Loading raw result) : result = raw.normalized := by
  cases h with
  | json h => rw [ofJsonText, h]
  | toml hread htree hknown => rw [ofToml, hread]; simp [htree, hknown]

theorem Loaded.exists_loading (h : spec.Loaded) : ∃ raw, Loading raw (.ok spec) := by
  rcases h with ⟨text, h⟩ | ⟨path, text, h⟩
  · have hload := h
    rw [ofJsonText] at hload
    split at hload
    · cases hload
    · rename_i raw hraw
      exact ⟨raw, h ▸ .json hraw⟩
  · have hload := h
    rw [ofToml] at hload
    split at hload
    · cases hload
    · rename_i fields hfields
      split at hload
      · cases hload
      · rename_i raw hraw
        split at hload
        · rename_i hknown
          exact ⟨raw, h ▸ .toml hfields hraw (List.isEmpty_iff.mp hknown)⟩
        · cases hload

theorem Loading.built (h : Loading raw (.ok spec)) : Built raw.sections spec := by
  obtain ⟨-, rfl⟩ := normalized_eq_ok_iff.mp h.eq_normalized.symm
  exact .ofList raw.sections

theorem Loading.exists_ok_iff (h : Loading raw result) :
    (∃ spec, result = .ok spec) ↔ ∀ p ∈ raw.sections, p.2.options ≠ [] := by
  rw [h.eq_normalized]
  constructor
  · rintro ⟨spec, hspec⟩
    exact (normalized_eq_ok_iff.mp hspec).1
  · intro hsome
    exact ⟨_, normalized_eq_ok_iff.mpr ⟨hsome, rfl⟩⟩

/-- Every section of the loaded spec is one of the sections in the text. -/
theorem Loading.options_ne_nil (h : Loading raw (.ok spec)) :
    ∀ p ∈ spec.sections, p.2.options ≠ [] := by
  rintro ⟨name, s⟩ hp
  obtain ⟨-, hget⟩ := h.built.lowercase.mem_sections_iff.mp hp
  rw [h.built.get?_eq, Option.map_eq_some_iff] at hget
  obtain ⟨q, hq, rfl⟩ := hget
  exact h.exists_ok_iff.mp ⟨spec, rfl⟩ q (List.mem_reverse.mp (List.mem_of_find?_eq_some hq))

end Loads

/-- A spec is a map from names in any spelling to sections. A look-up finds the section that was
inserted last under the same name, and nothing if there is none; the names are listed in lowercase,
in their order and each once. A text that can be read is loaded unless one of its sections has no
options, and its sections count as inserted in the order of their names. In a spec whose names are
as they were written, a look-up finds a section exactly if one has the same name. -/
theorem get?_outcome :
    (∀ history spec, Built history spec →
      (∀ name, spec.get? name =
        (history.reverse.find? fun p => sameName p.1 name).map Prod.snd) ∧
      (spec.sections.map Prod.fst).Pairwise (· < ·) ∧
      (∀ name, name ∈ spec.sections.map Prod.fst ↔ ∃ p ∈ history, fold p.1 = name) ∧
      ∀ name s, (name, s) ∈ spec.sections ↔ fold name = name ∧ spec.get? name = some s) ∧
    (∀ spec, Loaded spec → ∀ p ∈ spec.sections, fold p.1 = p.1 ∧ p.2.options ≠ []) ∧
    (∀ raw result, Loading raw result →
      ((∃ spec, result = .ok spec) ↔ ∀ p ∈ raw.sections, p.2.options ≠ []) ∧
      ((∃ e, result = .error e ∧ e.root = .noOptions) ↔ ∃ p ∈ raw.sections, p.2.options = []) ∧
      ∀ spec, result = .ok spec → Built raw.sections spec) ∧
    ∀ spec name,
      (get? spec name).isSome = true ↔ ∃ p ∈ spec.sections, sameName p.1 name = true := by
  refine ⟨fun history spec h => ⟨h.get?_eq, ?_, fun name => h.mem_names_iff,
    fun name s => h.lowercase.mem_sections_iff⟩, fun spec h p hp => ?_, fun raw result h => ?_,
    isSome_get?_iff⟩
  · exact List.pairwise_map.mpr h.lowercase.ordered
  · obtain ⟨raw, hload⟩ := h.exists_loading
    exact ⟨hload.built.lowercase.lower p hp, hload.options_ne_nil p hp⟩
  · refine ⟨h.exists_ok_iff, ?_, ?_⟩
    · rw [h.eq_normalized]
      exact normalized_noOptions_iff
    · rintro spec rfl
      exact h.built

section Sample

def portOptions : SectionSpec := ⟨[{ name := "Port", type := .int }]⟩

def pathOptions : SectionSpec := ⟨[{ name := "Path", required := true }]⟩

/-- Two spellings of one name, and a name that is spelled with the Kelvin sign. -/
def kioskHistory : List (String × SectionSpec) :=
  [("LogFile", portOptions), ("\u212aiosk", portOptions), ("LOGFILE", pathOptions)]

def kioskSpec : FileSpec :=
  ((empty.insert "LogFile" portOptions).insert "\u212aiosk" portOptions).insert "LOGFILE"
    pathOptions

def kioskTable : String := "[[\"\u212aiosk\"]]\nname = \"Port\"\ntype = \"int\"\n"

def kioskRows : List Toml.Row :=
  [.header "[[\"\u212aiosk\"]]".toList "\u212aiosk",
    .entry "name = \"Port\"".toList "name" (.text "Port"),
    .entry "type = \"int\"".toList "type" (.text "int")]

theorem rows_kioskTable : Toml.Rows kioskTable.toList kioskRows := by
  have htext : kioskTable.toList = unlines (kioskRows.map Toml.Row.line) := by decide
  rw [htext]
  -- once the characters are spelled out, what the reader takes is found by computation
  simp only [kioskRows, List.map, Toml.Row.line, String.reduceToList, unlines]
  refine .header_line (by decide) rfl rfl rfl ?_
  refine .entry_line (by decide) rfl (by decide) rfl rfl rfl ?_
  refine .entry_line (by decide) rfl (by decide) rfl rfl rfl ?_
  exact .nil

theorem ofToml_kioskTable :
    ofToml "spec.toml" kioskTable = .ok ⟨[("kiosk", portOptions)]⟩ := by
  have hload : Loading ⟨[("\u212aiosk", portOptions)]⟩ (ofToml "spec.toml" kioskTable) :=
    .toml (rows_kioskTable.read?_eq.trans rfl) rfl rfl
  have hlower : fold "\u212aiosk" = "kiosk" := by decide
  rw [hload.eq_normalized, normalized_eq_ok_iff]
  refine ⟨by simp [portOptions], ?_⟩
  simp [ofList, insert, empty, hlower, Keyed.put]

/-- A text in which the second section is empty. -/
def kioskText : String := "\x7b\"KIOSK\":[\x7b\"name\":\"Port\"\x7d],\"Log\":[]\x7d"

theorem tree?_kioskText : tree? kioskText = some (.object
    [(some "KIOSK", .array [.object [(some "name", .text (some "Port"))]]),
      (some "Log", .array [])]) := by
  have htokens : tokens? kioskText.toList = some
      [.leftBrace, .text (some "KIOSK"), .colon, .leftBracket, .leftBrace, .text (some "name"),
        .colon, .text (some "Port"), .rightBrace, .rightBracket, .comma, .text (some "Log"),
        .colon, .leftBracket, .rightBracket, .rightBrace] := by
    simp only [kioskText, String.reduceToList]
    rfl
  rw [tree?, htokens]
  rfl

theorem get?_outcome_kiosk :
    Built kioskHistory kioskSpec ∧ kioskSpec.get? "logfile" = some pathOptions ∧
      kioskSpec.get? "KIOSK" = some portOptions ∧ kioskSpec.get? "Log" = none ∧
      Loaded ⟨[("kiosk", portOptions)]⟩ ∧ fold "kiosk" = "kiosk" ∧ portOptions.options ≠ [] ∧
      Loading ⟨[("KIOSK", ⟨[{ name := "Port" }]⟩), ("Log", ⟨[]⟩)]⟩ (ofJsonText kioskText) ∧
      (∃ e, ofJsonText kioskText = .error e ∧ e.root = .noOptions) ∧
      (get? ⟨[("KIOSK", portOptions)]⟩ "\u212aiosk").isSome = true := by
  obtain ⟨hbuilt, hloaded, hloading, hraw⟩ := get?_outcome
  have hkiosk : Built kioskHistory kioskSpec :=
    (((Built.ofList []).insert "LogFile" portOptions).insert "\u212aiosk" portOptions).insert
      "LOGFILE" pathOptions
  have hget := (hbuilt kioskHistory kioskSpec hkiosk).1
  have htable : Loaded ⟨[("kiosk", portOptions)]⟩ :=
    Or.inr ⟨"spec.toml", kioskTable, ofToml_kioskTable⟩
  have hlisted := hloaded _ htable ("kiosk", portOptions) List.mem_cons_self
  have htext : Loading ⟨[("KIOSK", ⟨[{ name := "Port" }]⟩), ("Log", ⟨[]⟩)]⟩
      (ofJsonText kioskText) := .json (by rw [tree?_kioskText]; rfl)
  have hempty := (hloading _ _ htext).2.1.mpr ⟨("Log", ⟨[]⟩), by simp, rfl⟩
  refine ⟨hkiosk, ?_, ?_, ?_, htable, hlisted.1, hlisted.2, htext, hempty, ?_⟩
  · rw [hget]
    rfl
  · rw [hget]
    rfl
  · rw [hget]
    rfl
  · rw [hraw]
    exact ⟨("KIOSK", portOptions), List.mem_cons_self, by decide⟩

end Sample

end FileSpec
end UnitFiles

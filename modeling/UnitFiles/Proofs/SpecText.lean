import UnitFiles.Records
import UnitFiles.Proofs.SpecTrees

/-! Specs and sections are read from their texts as they were, unless the annotations are nested too
deep. What a section is handed on as text loses nothing on its way. -/
namespace UnitFiles
open Text Json Json.Tree

namespace FileSpec
variable {spec : FileSpec}

/-- Specs that sections are inserted into, starting with no section. -/
def Inserted (spec : FileSpec) : Prop := ∃ sections, ofList sections = spec

/-- The names of the sections increase and are in lowercase. -/
structure Lowercase (spec : FileSpec) : Prop where
  ordered : spec.sections.Ordered
  lower : ∀ p ∈ spec.sections, fold p.1 = p.1

theorem Lowercase.insert (h : spec.Lowercase) (name : String) (s : SectionSpec) :
    (spec.insert name s).Lowercase where
  ordered := h.ordered.put (fold name) s
  lower p hp := by
    rcases Keyed.mem_of_mem_put hp with rfl | hp
    · exact fold_fold name
    · exact h.lower p hp

theorem Inserted.lowercase (h : spec.Inserted) : spec.Lowercase := by
  have hrun : ∀ (sections : List (String × SectionSpec)) (start : FileSpec), start.Lowercase →
      (sections.foldl (fun spec p => spec.insert p.1 p.2) start).Lowercase := by
    intro sections
    induction sections with
    | nil => exact fun _ hstart => hstart
    | cons p rest ih => exact fun start hstart => ih _ (hstart.insert p.1 p.2)
  obtain ⟨sections, rfl⟩ := h
  exact hrun sections empty ⟨List.Pairwise.nil, fun p hp => nomatch hp⟩

theorem normalized_go {sections : List (String × SectionSpec)}
    (hsome : ∀ p ∈ sections, p.2.options ≠ []) (hlower : ∀ p ∈ sections, fold p.1 = p.1)
    (out : FileSpec) :
    normalized.go out sections =
      .ok ⟨sections.foldl (fun m p => Keyed.put p.1 p.2 m) out.sections⟩ := by
  induction sections generalizing out with
  | nil => rfl
  | cons p rest ih =>
    obtain ⟨name, s⟩ := p
    obtain ⟨hs, hrest⟩ := List.forall_mem_cons.mp hsome
    obtain ⟨hname, hnames⟩ := List.forall_mem_cons.mp hlower
    have hempty : s.options.isEmpty = false := List.isEmpty_eq_false_iff.mpr hs
    rw [normalized.go, hempty, if_neg Bool.false_ne_true, ih hrest hnames, insert, hname,
      List.foldl_cons]

theorem Lowercase.normalized_eq (h : spec.Lowercase)
    (hsome : ∀ p ∈ spec.sections, p.2.options ≠ []) : spec.normalized = .ok spec := by
  have hsections : spec.sections.foldl (fun m p => Keyed.put p.1 p.2 m) [] = spec.sections :=
    Keyed.ofList_eq h.ordered
  rw [normalized, normalized_go hsome h.lower, empty, hsections]

theorem Lowercase.ofJsonText_render (h : spec.Lowercase) (hplain : spec.PlainAnnotations)
    (hsome : ∀ p ∈ spec.sections, p.2.options ≠ []) :
    ofJsonText (.ofList spec.toJson.render) =
      if spec.toJson.depth ≤ depthLimit then .ok spec else .error .malformedJson := by
  have hread := ofTree?_tree hplain h.ordered annotationDepth true
  rw [ofJsonText, hplain.floatless_toJson.tree?_render, Option.bind_some, hread]
  -- an annotation is in an object in an object in an array in the object of all sections
  have hlimit : annotationDepth + 4 = depthLimit := rfl
  rw [hlimit]
  split_ifs
  · exact h.normalized_eq hsome
  · rfl

end FileSpec

namespace DescribedSection
variable {r : DescribedSection}

theorem nameValue?_tree (e : Entry) : nameValue? (entryJson e).tree = some e := by
  rw [nameValue?, entryJson, record?_pair (by decide)]
  rfl

theorem section?_tree (s : Section) : section? (sectionJson s).tree = some s := by
  have hentries : readAll nameValue? (s.entries.map fun e => (entryJson e).tree) = some s.entries :=
    readAll_map_some fun e _ => nameValue?_tree e
  have hoptions : fieldOr (fieldTrees [("name", .text s.name),
      ("options", .array (s.entries.map entryJson))]) "options" []
        (fun t => t.items?.bind (readAll nameValue?)) = some s.entries := by
    rw [fieldOr, lookup_fieldTrees]
    change (Json.array (s.entries.map entryJson)).tree.items?.bind (readAll nameValue?) = _
    rw [Json.tree, trees_eq_map, List.map_map]
    exact hentries
  rw [section?, sectionJson, record?_pair (by decide)]
  simp only [Option.bind_eq_bind, Option.bind_some, hoptions]
  rfl

theorem floatless_sectionJson (s : Section) : (sectionJson s).Floatless := by
  have hentries : (Json.array (s.entries.map entryJson)).Floatless := by
    refine .array fun v hv => ?_
    obtain ⟨e, -, rfl⟩ := List.mem_map.mp hv
    exact .object (by simp [Json.Floatless.text])
  exact .object (by simp [Json.Floatless.text, hentries])

theorem depth_sectionJson_le (s : Section) : (sectionJson s).depth ≤ 3 := by
  have hentries : depthOfItems (s.entries.map entryJson) ≤ 1 := by
    rw [depthOfItems_le_iff]
    intro v hv
    obtain ⟨e, -, rfl⟩ := List.mem_map.mp hv
    exact Nat.le_refl 1
  simp only [sectionJson, Json.depth, depthOfFields]
  omega

theorem depth_toJson_le_iff {n : Nat} (h : 3 ≤ n) :
    r.toJson.depth ≤ n + 1 ↔ r.spec.toJson.depth ≤ n := by
  have hsection := depth_sectionJson_le r.content
  simp only [toJson, Json.depth, depthOfFields]
  omega

theorem ofText?_toText (h : r.spec.PlainAnnotations) :
    ofText? r.toText = if r.toJson.depth ≤ depthLimit then some r else none := by
  have hfloatless : r.toJson.Floatless :=
    .object (by simp [floatless_sectionJson, h.floatless_toJson])
  have hdepth : r.toJson.depth ≤ depthLimit ↔ r.spec.toJson.depth ≤ FileSpec.annotationDepth + 3 :=
    depth_toJson_le_iff (by decide)
  have hcontent : Tree.field? (fieldTrees [("section", sectionJson r.content),
      ("spec", r.spec.toJson)]) "section" section? = some r.content := section?_tree r.content
  have hspec : Tree.field? (fieldTrees [("section", sectionJson r.content),
      ("spec", r.spec.toJson)]) "spec" (SectionSpec.ofTree? FileSpec.annotationDepth true) =
        if r.spec.toJson.depth ≤ FileSpec.annotationDepth + 3 then some r.spec else none :=
    SectionSpec.ofTree?_tree h FileSpec.annotationDepth true
  rw [ofText?, toText, hfloatless.tree?_render, Option.bind_some]
  simp only [hdepth]
  rw [toJson, ofTree?, record?_pair (by decide)]
  simp only [Option.bind_eq_bind, Option.bind_some, hcontent, hspec]
  split_ifs <;> rfl

/-- A function that is to decode a section is given that section, and the specs it is decoded
with. -/
theorem sectionAs_hook (h : r.spec.PlainAnnotations) (hdepth : r.toJson.depth ≤ depthLimit)
    (strict : Bool) (decode : DescribedSection → Except Error Decoded) :
    sectionAs strict r.spec r.content (.hook decode) = decode r := by
  have hraw : handOver r.spec r.content = .ok (.raw r) := by
    rw [handOver, ofText?_toText h, if_pos hdepth]
    rfl
  rw [Shape.hook, Shape.refined, sectionAs, sectionAs, hraw]
  rfl

end DescribedSection

namespace FileSpec
variable {spec : FileSpec} {name : String} {s : SectionSpec} {d : Document}

/-- A record with one field takes the sections of that name, with their specs. -/
theorem decode_needed (hspec : spec.get? name = some s) (hhas : d.has name = true) (strict : Bool)
    (shape : Shape) :
    spec.decode strict d (.record [needed name shape]) =
      (within name (sectionsAs strict s (d.sectionsNamed name) shape)).map
        fun v => .record [(name, v)] := by
  have hspecs : specsFor spec [name] = .ok [(name, s)] := by
    rw [specsFor, hspec]
    rfl
  rw [decode_eq, documentAs, documentAsRecord]
  simp only [List.map_cons, List.map_nil, needed, hspecs, decodeRecord, decodeFields, hhas, if_true,
    List.lookup_cons_self, Option.map_some, List.contains_nil, Bool.false_eq_true, if_false]
  cases sectionsAs strict s (d.sectionsNamed name) shape with
  | error e => rfl
  | ok v =>
    have hsettle : settle [(name, shape, .required)] [(name, v)] = .ok [(name, v)] := by
      simp only [settle, mapAll, List.lookup_cons_self, settleField]
      rfl
    simp only [within, Except.mapError, Except.map, hsettle]
    rfl

/-- Functions that are to decode the sections of a name are given all of them in turn, and the specs
that the registry has for that name. -/
theorem decode_hooks (hspec : spec.get? name = some s) (hplain : s.PlainAnnotations)
    (hdepth : s.toJson.depth < depthLimit) (hhas : d.has name = true) (strict : Bool)
    (decode : DescribedSection → Except Error Decoded) :
    spec.decode strict d (.record [needed name (.seq (.hook decode))]) =
      (within name (mapAll (fun sec => decode ⟨sec, s⟩) (d.sectionsNamed name))).map
        fun items => .record [(name, .seq items)] := by
  have hhook : (fun sec => sectionAs strict s sec (.hook decode)) =
      fun sec => decode ⟨sec, s⟩ := by
    funext sec
    have hshallow : (DescribedSection.mk sec s).toJson.depth ≤ depthLimit :=
      (DescribedSection.depth_toJson_le_iff (n := 126) (by decide)).mpr (Nat.le_of_lt_succ hdepth)
    exact DescribedSection.sectionAs_hook (r := ⟨sec, s⟩) hplain hshallow strict decode
  rw [decode_needed hspec hhas, sectionsAs, sectionsAsSeq, hhook]
  cases mapAll (fun sec => decode ⟨sec, s⟩) (d.sectionsNamed name) <;> rfl

end FileSpec

/-- Specs without floating point numbers are loaded from their text as they were, exactly if nothing
in the text is nested deeper than can be read; the values of annotations stand four levels deep in
it. So are sections together with their specs, and a function that is to decode sections sees the
sections and the specs of the registry. -/
theorem specs_and_sections_read_back :
    (∀ spec : FileSpec, spec.Inserted → (∀ p ∈ spec.sections, p.2.options ≠ []) →
      spec.PlainAnnotations →
        FileSpec.ofJsonText (.ofList spec.toJson.render) =
          if spec.toJson.depth ≤ depthLimit then .ok spec else .error .malformedJson) ∧
    (∀ r : DescribedSection, r.spec.PlainAnnotations →
      DescribedSection.ofText? r.toText = (if r.toJson.depth ≤ depthLimit then some r else none) ∧
        (r.toJson.depth ≤ depthLimit → ∀ (strict : Bool) decode,
          sectionAs strict r.spec r.content (.hook decode) = decode r)) ∧
    ∀ (spec : FileSpec) (name : String) (s : SectionSpec), spec.get? name = some s →
      s.PlainAnnotations → s.toJson.depth < depthLimit →
        ∀ d : Document, d.has name = true → ∀ (strict : Bool) decode,
          spec.decode strict d (.record [needed name (.seq (.hook decode))]) =
            (within name (mapAll (fun sec => decode ⟨sec, s⟩) (d.sectionsNamed name))).map
              fun items => .record [(name, .seq items)] := by
  refine ⟨fun spec hinserted hsome hplain => hinserted.lowercase.ofJsonText_render hplain hsome,
    fun r hplain => ⟨DescribedSection.ofText?_toText hplain, fun hdepth strict decode => ?_⟩,
    fun spec name s hspec hplain hdepth d hhas strict decode => ?_⟩
  · exact DescribedSection.sectionAs_hook hplain hdepth strict decode
  · exact FileSpec.decode_hooks hspec hplain hdepth hhas strict decode

section Sample

def labelledOption : OptionSpec :=
  { name := "Größe", aliases := ["Size", ""], type := .intList, internal := true,
    annotations := [("limits", .object [("max", .int 9), ("min", .int (-9))]),
      ("notes", .array [.null, .text "\n"])] }

def labelledOptions : SectionSpec := ⟨[labelledOption, { name := "Mode", required := true }]⟩

def labelledSpec : FileSpec := .ofList [("Disk", labelledOptions)]

/-- A section with repeated options, and one of no spec. -/
def labelledSection : Section := ⟨"DISK", [⟨"größe", "1"⟩, ⟨"Größe", "\t2\""⟩, ⟨"Другое", ""⟩]⟩

theorem plainAnnotations_labelledOption : labelledOption.PlainAnnotations where
  floatless := by
    have hlimits : ∀ p ∈ [("max", Json.int 9), ("min", .int (-9))], p.2.Floatless := by
      rw [List.forall_mem_cons, List.forall_mem_singleton]
      exact ⟨.int (by decide) (by decide), .int (by decide) (by decide)⟩
    have hnotes : ∀ v ∈ [Json.null, .text "\n"], v.Floatless := by
      rw [List.forall_mem_cons, List.forall_mem_singleton]
      exact ⟨.null, .text _⟩
    refine .object ?_
    rw [labelledOption, List.forall_mem_cons, List.forall_mem_singleton]
    exact ⟨.object hlimits, .array hnotes⟩
  ordered := by
    have hlimits : ∀ p ∈ [("max", Json.int 9), ("min", .int (-9))], p.2.Ordered := by
      rw [List.forall_mem_cons, List.forall_mem_singleton]
      exact ⟨.int _, .int _⟩
    have hnotes : ∀ v ∈ [Json.null, .text "\n"], v.Ordered := by
      rw [List.forall_mem_cons, List.forall_mem_singleton]
      exact ⟨.null, .text _⟩
    refine .object (List.pairwise_pair.mpr (by decide)) ?_
    rw [labelledOption, List.forall_mem_cons, List.forall_mem_singleton]
    exact ⟨.object (List.pairwise_pair.mpr (by decide)) hlimits, .array hnotes⟩

theorem plainAnnotations_labelledOptions : labelledOptions.PlainAnnotations := by
  rw [SectionSpec.PlainAnnotations, labelledOptions, List.forall_mem_cons,
    List.forall_mem_singleton]
  exact ⟨plainAnnotations_labelledOption, .of_nil rfl⟩

theorem specs_and_sections_read_back_labelled :
    labelledSpec.Inserted ∧ labelledSpec.PlainAnnotations ∧
      labelledSpec.toJson.depth ≤ depthLimit ∧
      FileSpec.ofJsonText (.ofList labelledSpec.toJson.render) = .ok labelledSpec ∧
      DescribedSection.ofText? (DescribedSection.mk labelledSection labelledOptions).toText =
        some ⟨labelledSection, labelledOptions⟩ ∧
      labelledSpec.decode true ⟨"disk.unit", [labelledSection]⟩
          (.record [needed "Disk" (.seq (.hook fun r => .ok (.raw r)))]) =
        .ok (.record [("Disk", .seq [.raw ⟨labelledSection, labelledOptions⟩])]) := by
  obtain ⟨hspec, hsection, hregistry⟩ := specs_and_sections_read_back
  have hsections : labelledSpec.sections = [(fold "Disk", labelledOptions)] := rfl
  have hget : labelledSpec.get? "Disk" = some labelledOptions := by
    rw [FileSpec.get?, hsections, Keyed.get?]
    simp
  have hsome : ∀ p ∈ labelledSpec.sections, p.2.options ≠ [] := by
    rw [hsections, List.forall_mem_singleton]
    exact List.cons_ne_nil _ _
  have hplain : labelledSpec.PlainAnnotations := by
    rw [FileSpec.PlainAnnotations, hsections, List.forall_mem_singleton]
    exact plainAnnotations_labelledOptions
  obtain ⟨htext, -⟩ := hsection ⟨labelledSection, labelledOptions⟩ plainAnnotations_labelledOptions
  have hinserted : labelledSpec.Inserted := ⟨_, rfl⟩
  have hdepth : labelledSpec.toJson.depth ≤ depthLimit := by decide +kernel
  refine ⟨hinserted, hplain, hdepth, ?_, ?_, ?_⟩
  · rw [hspec labelledSpec hinserted hsome hplain, if_pos hdepth]
  · rw [htext, if_pos (by decide +kernel)]
  · rw [hregistry labelledSpec "Disk" labelledOptions hget plainAnnotations_labelledOptions
      (by decide +kernel) ⟨"disk.unit", [labelledSection]⟩ (by decide +kernel)]
    rfl

end Sample
end UnitFiles

import UnitFiles.Proofs.Rereading

/-! What is written is read back, and which values that holds for. Reading goes through the lines
of a text with nothing pending between two options, as long as the values are stable. -/
namespace UnitFiles.Format
open Text

theorem tidied_of_unindented {value : List Char}
    (h : ∀ line ∈ splitAll '\n' value, Unindented line) :
    tidied value = unlines (splitAll '\n' value).dropLast ++ trim (lastLine value) := by
  have hfront : (splitAll '\n' value).dropLast.map trimStart = (splitAll '\n' value).dropLast :=
    (List.map_congr_left fun line hline =>
      trimStart_eq_self (h line (List.dropLast_subset _ hline))).trans (List.map_id' _)
  rw [tidied, hfront]

theorem lastLine_mem (value : List Char) : lastLine value ∈ splitAll '\n' value :=
  List.getLast_mem (splitAll_ne_nil value)

theorem Stable.tidied {value : List Char} (h : Stable value) : tidied value = value := by
  have hlast : Unpadded (lastLine value) :=
    h.unpadded _ (List.getLast?_eq_some_getLast (splitAll_ne_nil value))
  rw [tidied_of_unindented h.unindented,
    trim_eq_self (h.unindented _ (lastLine_mem value)) hlast, ← eq_unlines_lastLine]

theorem Stable.not_open {value : List Char} (h : Stable value) : ¬Open value := by
  rw [open_iff_getLast?_tidied, h.tidied]
  exact h.finished

theorem tidied_eq_self {s : Section} (stable : ∀ e ∈ s.entries, Stable e.value.toList) :
    s.tidied = s := by
  have hentry : ∀ e ∈ s.entries, e.tidied = e := by
    intro e he
    rw [Entry.tidied, (stable e he).tidied, String.ofList_toList]
  rw [Section.tidied, List.map_congr_left hentry, List.map_id']

theorem runs_documentLines {sections : List Section} (named : ∀ s ∈ sections, WellNamed s)
    (stable : ∀ s ∈ sections, ∀ e ∈ s.entries, Stable e.value.toList) (front : List Section) :
    Progress.Runs ⟨front, none⟩ (documentLines sections) ⟨front ++ sections, none⟩ := by
  have hruns := Progress.runs_documentLines_takeSection (p := ⟨front, none⟩) named rfl
  rwa [Progress.foldl_takeSection_closed fun s hs e he => (stable s hs e he).not_open,
    List.map_congr_left fun s hs => tidied_eq_self (stable s hs), List.map_id'] at hruns

/-- The last line of a value: only if it is also the first one, the name stands in front. -/
theorem valueLines_concat (lead : List Char) (pieces : List (List Char)) (last : List Char) :
    ∃ front, valueLines lead (pieces ++ [last]) =
      front ++ [(if pieces = [] then lead else ['\t']) ++ last] := by
  induction pieces generalizing lead with
  | nil => exact ⟨[], rfl⟩
  | cons piece rest ih =>
    obtain ⟨front, hfront⟩ := ih ['\t']
    refine ⟨(lead ++ (piece ++ ['\\'])) :: front, ?_⟩
    rw [List.cons_append, valueLines_cons _ _ (by simp), hfront]
    simp

theorem documentLines_concat (front : List Section) (s : Section) :
    ∃ above, documentLines (front ++ [s]) = above ++ sectionLines s := by
  induction front with
  | nil => exact ⟨[], rfl⟩
  | cons t rest ih =>
    obtain ⟨above, habove⟩ := ih
    refine ⟨sectionLines t ++ [] :: above, ?_⟩
    rw [List.cons_append, documentLines_cons t (by simp), habove]
    simp

theorem documentLines_push (front : List Section) (s : Section) (name value : String) :
    ∃ above, documentLines (front ++ [s.push name value]) = above ++ entryLines ⟨name, value⟩ := by
  obtain ⟨above, habove⟩ := documentLines_concat front (s.push name value)
  refine ⟨above ++ headerLine s.name.toList :: s.entries.flatMap entryLines, ?_⟩
  rw [habove, sectionLines, Section.push, List.flatMap_append]
  simp

/-- What stands in front of the last piece of a value. -/
def lastLead (name : List Char) (pieces : List (List Char)) : List Char :=
  if pieces = [] then optionLead name else ['\t']

/-- After the last line of a value the same value is not still open: that would take one more
backslash than the line has. -/
theorem step_last_line {q p : Progress} {name head last : List Char} {pieces : List (List Char)}
    (named : IsOptionName name) (hhead : splitAll '\n' head = pieces ++ [last])
    (hstep : q.step (lastLead name pieces ++ last) = .ok p)
    (newline : '\n' ∉ lastLead name pieces ++ last) : p.pending ≠ some (name, head) := by
  intro hpending
  have hmore : splitAll '\n' (head ++ ['\\']) = pieces ++ [last ++ ['\\']] := by
    have hbackslash : '\n' ∉ ['\\'] := by decide
    obtain ⟨pieces', last', hhead', hmore⟩ := exists_splitAll_append hbackslash head
    obtain ⟨hpieces, hlast⟩ := List.append_inj' (hhead.symm.trans hhead') rfl
    rw [hmore, hpieces, List.singleton_inj.mp hlast]
  have htrim : '\n' ∉ trim (lastLead name pieces ++ last) := not_mem_trim newline
  rcases Progress.step_eq_ok_iff.mp hstep with ⟨n, h, -, rfl⟩ | ⟨hnone, hstep⟩
  · -- the line goes on with a value, so that it is not the first one of its own
    obtain ⟨-, hvalue⟩ := Progress.settle_pending hpending
    rw [← hvalue, splitAll_append_sep, splitAll_eq_singleton htrim] at hmore
    obtain ⟨hpieces, hlast⟩ := List.append_inj' hmore rfl
    have hne : pieces ≠ [] := hpieces ▸ splitAll_ne_nil h
    rw [lastLead, if_neg hne, List.singleton_append, trim_cons_blank (by decide)] at hlast
    exact trim_ne_concat last '\\' (List.singleton_inj.mp hlast)
  · rcases hstep with ⟨-, rfl⟩ | ⟨n, -, rfl⟩ | ⟨n, v, hoption, -, rfl⟩
    · rw [hnone] at hpending
      cases hpending
    · cases hpending
    · -- the line gives an option, so that its value has no line before this one
      obtain ⟨-, hvalue⟩ := Progress.settle_pending hpending
      have hsingle : '\n' ∉ v := fun hmem => htrim (Line.value_subset hoption hmem)
      have hsplit : [] ++ [v] = pieces ++ [last ++ ['\\']] := by
        rw [← hmore, ← hvalue, splitAll_eq_singleton hsingle]
        rfl
      obtain ⟨hpieces, hlast⟩ := List.append_inj' hsplit rfl
      rw [lastLead, if_pos hpieces.symm, ofTrimmed_optionLead named] at hoption
      cases hoption
      exact trim_ne_concat last '\\' (List.singleton_inj.mp hlast)

/-- A text that reads back what was written has nothing pending at its end. -/
theorem pending_eq_none_of_finish {sections : List Section} {p : Progress}
    (nonempty : sections ≠ []) (named : ∀ s ∈ sections, WellNamed s)
    (hruns : Progress.Runs ⟨[], none⟩ (documentLines sections) p) (hfinish : p.finish = sections) :
    p.pending = none := by
  cases hpending : p.pending with
  | none => rfl
  | some pair =>
    -- what is pending is the last value of the sections, and its last line is the last one read
    obtain ⟨name, head⟩ := pair
    rw [Progress.finish, hpending] at hfinish
    rcases List.eq_nil_or_concat' p.sections with hnil | ⟨front, s, hsections⟩
    · rw [hnil] at hfinish
      exact absurd hfinish.symm nonempty
    · have hpush : sections = front ++ [s.push (.ofList name) (.ofList head)] := by
        rw [← hfinish, hsections]
        exact pushLast_append _ _ front s
      obtain ⟨above, habove⟩ := documentLines_push front s (.ofList name) (.ofList head)
      rw [← hpush] at habove
      have hname : IsOptionName name := by
        have hs := named (s.push (.ofList name) (.ofList head)) (by simp [hpush])
        have he := hs.options ⟨.ofList name, .ofList head⟩ (by simp [Section.push])
        rwa [String.toList_ofList] at he
      obtain ⟨pieces, last, hhead, -⟩ := exists_splitAll_append (List.not_mem_nil (a := '\n')) head
      obtain ⟨first, hfirst⟩ := valueLines_concat (optionLead name) pieces last
      rw [entryLines, String.toList_ofList, String.toList_ofList, hhead, hfirst,
        ← List.append_assoc] at habove
      have hlast := newline_not_mem_documentLines named
      rw [habove] at hruns hlast
      obtain ⟨q, -, hstep⟩ := Progress.runs_append_iff.mp hruns
      exact absurd hpending (step_last_line hname hhead (Progress.runs_singleton_iff.mp hstep)
        (hlast _ (List.mem_append_right _ List.mem_cons_self)))

/-- Writing and reading gives the same sections back exactly when all values are stable. -/
theorem read_write_iff (path : String) {sections : List Section} (nonempty : sections ≠ [])
    (named : ∀ s ∈ sections, WellNamed s) :
    (∃ text, write sections = .ok text ∧ read path text = .ok ⟨path, sections⟩) ↔
      ∀ s ∈ sections, ∀ e ∈ s.entries, Stable e.value.toList := by
  have hlines : lines (unlines (documentLines sections)) = documentLines sections :=
    lines_unlines (newline_not_mem_documentLines named)
  constructor
  · rintro ⟨text, hwrite, hread⟩
    obtain ⟨-, rfl⟩ := write_eq_ok_iff.mp hwrite
    obtain ⟨p, hruns, -, hfinish⟩ := read_eq_ok_iff.mp hread
    rw [String.toList_ofList, hlines] at hruns
    have hsections : p.finish = sections := congrArg Document.sections hfinish
    have hpending := pending_eq_none_of_finish nonempty named hruns hsections
    have hclean := Progress.clean_start.runs (newline_not_mem_documentLines named) hruns
    rw [Progress.finish, hpending] at hsections
    rw [← hsections]
    exact hclean.stable
  · intro hstable
    refine ⟨_, write_eq_ok_iff.mpr ⟨fun s hs e he => (hstable s hs e he).finished, rfl⟩, ?_⟩
    refine read_eq_ok_iff.mpr ⟨⟨sections, none⟩, ?_, nonempty, rfl⟩
    rw [String.toList_ofList, hlines]
    exact runs_documentLines named hstable []

def sampleSections : List Section :=
  [⟨"Notes", [⟨"Text", "one \\\n\ntwo"⟩, ⟨"Text", ""⟩]⟩, ⟨"[x]", []⟩]

theorem read_write_sampleSections :
    ∃ text, write sampleSections = .ok text ∧
      read "a.unit" text = .ok ⟨"a.unit", sampleSections⟩ :=
  (read_write_iff "a.unit" (by decide) (by decide +kernel)).mpr (by decide +kernel)

end UnitFiles.Format

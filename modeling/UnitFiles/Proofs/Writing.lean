import UnitFiles.Format.Writer
import UnitFiles.Proofs.Pieces

/-! What is written, as lines: those of each section and an empty one between two sections. Names
that fit into their lines are the ones that a text can hold. -/
namespace UnitFiles.Format
open Text

/-- A name that a section header gives back. -/
def IsSectionName (name : List Char) : Prop := name ≠ [] ∧ trim name = name ∧ '\n' ∉ name

instance (name : List Char) : Decidable (IsSectionName name) :=
  inferInstanceAs (Decidable (_ ∧ _))

/-- A name that an option line gives back. -/
def IsOptionName (name : List Char) : Prop :=
  IsSectionName name ∧ '=' ∉ name ∧
    name.head? ≠ some '[' ∧ name.head? ≠ some '#' ∧ name.head? ≠ some ';'

instance (name : List Char) : Decidable (IsOptionName name) :=
  inferInstanceAs (Decidable (_ ∧ _))

structure WellNamed (s : Section) : Prop where
  header : IsSectionName s.name.toList
  options : ∀ e ∈ s.entries, IsOptionName e.name.toList

instance (s : Section) : Decidable (WellNamed s) :=
  decidable_of_iff
    (IsSectionName s.name.toList ∧ ∀ e ∈ s.entries, IsOptionName e.name.toList)
    ⟨fun h => ⟨h.1, h.2⟩, fun h => ⟨h.header, h.options⟩⟩

/-- The lines of a value. All but the first are indented, and all but the last announce another. -/
def valueLines (lead : List Char) : List (List Char) → List (List Char)
  | [] => []
  | [piece] => [lead ++ piece]
  | piece :: rest => (lead ++ (piece ++ ['\\'])) :: valueLines ['\t'] rest

def optionLead (name : List Char) : List Char := name ++ ['=', ' ']

def entryLines (e : Entry) : List (List Char) :=
  valueLines (optionLead e.name.toList) (splitAll '\n' e.value.toList)

def headerLine (name : List Char) : List Char := '[' :: (name ++ [']'])

def sectionLines (s : Section) : List (List Char) :=
  headerLine s.name.toList :: s.entries.flatMap entryLines

def documentLines : List Section → List (List Char)
  | [] => []
  | [s] => sectionLines s
  | s :: rest => sectionLines s ++ [] :: documentLines rest

theorem valueLines_cons (lead piece : List Char) {rest : List (List Char)} (h : rest ≠ []) :
    valueLines lead (piece :: rest) = (lead ++ (piece ++ ['\\'])) :: valueLines ['\t'] rest := by
  cases rest with
  | nil => contradiction
  | cons _ _ => rfl

theorem documentLines_cons (s : Section) {rest : List Section} (h : rest ≠ []) :
    documentLines (s :: rest) = sectionLines s ++ [] :: documentLines rest := by
  cases rest with
  | nil => contradiction
  | cons _ _ => rfl

theorem valueLines_shift (lead : List Char) (c : Char) (piece : List Char)
    (rest : List (List Char)) :
    valueLines lead ((c :: piece) :: rest) = valueLines (lead ++ [c]) (piece :: rest) := by
  cases rest <;> simp [valueLines]

theorem unlines_valueLines (lead value : List Char) :
    unlines (valueLines lead (splitAll '\n' value)) = lead ++ (continued value ++ ['\n']) := by
  induction value generalizing lead with
  | nil => simp [splitAll, valueLines, unlines, continued]
  | cons c rest ih =>
    by_cases hc : c = '\n'
    · rw [hc, splitAll_cons_sep, valueLines_cons _ _ (splitAll_ne_nil rest), unlines, ih]
      simp [continued]
    · obtain ⟨piece, pieces, hrest, hcons⟩ := exists_splitAll_cons hc rest
      rw [hcons, valueLines_shift, ← hrest, ih]
      simp [continued, hc]

theorem unlines_flatMap_entryLines (es : List Entry) :
    unlines (es.flatMap entryLines) = es.flatMap writeEntry := by
  induction es with
  | nil => rfl
  | cons e rest ih =>
    rw [List.flatMap_cons, List.flatMap_cons, unlines_append, ih, entryLines, unlines_valueLines,
      writeEntry, optionLead]
    simp

theorem unlines_sectionLines (s : Section) : unlines (sectionLines s) = writeSection s := by
  rw [sectionLines, unlines, unlines_flatMap_entryLines, headerLine, writeSection]
  simp

theorem unlines_documentLines (sections : List Section) :
    unlines (documentLines sections) = join ['\n'] (sections.map writeSection) := by
  induction sections with
  | nil => rfl
  | cons s rest ih =>
    cases rest with
    | nil => exact unlines_sectionLines s
    | cons t rest =>
      have hjoin : join ['\n'] ((s :: t :: rest).map writeSection) =
          writeSection s ++ '\n' :: join ['\n'] ((t :: rest).map writeSection) :=
        join_cons (by simp)
      rw [documentLines_cons s (by simp), unlines_append, unlines, ih, unlines_sectionLines, hjoin]
      rfl

theorem firstUnfinished?_eq_none_iff {sections : List Section} :
    firstUnfinished? sections = none ↔
      ∀ s ∈ sections, ∀ e ∈ s.entries, e.value.toList.getLast? ≠ some '\\' := by
  induction sections with
  | nil => simp [firstUnfinished?]
  | cons s rest ih =>
    rw [firstUnfinished?, List.forall_mem_cons, ← ih]
    cases hfind : s.entries.find? fun e => endsUnfinished e.value with
    | none =>
      simp only [List.find?_eq_none, endsUnfinished, beq_iff_eq] at hfind
      exact (and_iff_right hfind).symm
    | some e =>
      have hmem := List.mem_of_find?_eq_some hfind
      have hlast := List.find?_some hfind
      simp only [endsUnfinished, beq_iff_eq] at hlast
      simp only [reduceCtorEq, false_iff, not_and]
      intro h
      exact absurd hlast (h e hmem)

theorem write_eq_ok_iff {sections : List Section} {text : String} :
    write sections = .ok text ↔
      (∀ s ∈ sections, ∀ e ∈ s.entries, e.value.toList.getLast? ≠ some '\\') ∧
        .ofList (unlines (documentLines sections)) = text := by
  rw [write, ← firstUnfinished?_eq_none_iff, unlines_documentLines]
  cases firstUnfinished? sections <;> simp

theorem newline_not_mem_valueLines {lead : List Char} {pieces : List (List Char)}
    (hlead : '\n' ∉ lead) (hpieces : ∀ piece ∈ pieces, '\n' ∉ piece) :
    ∀ line ∈ valueLines lead pieces, '\n' ∉ line := by
  induction pieces generalizing lead with
  | nil => simp [valueLines]
  | cons piece rest ih =>
    obtain ⟨hpiece, hrest⟩ := List.forall_mem_cons.mp hpieces
    by_cases hnil : rest = []
    · simp [hnil, valueLines, hlead, hpiece]
    · rw [valueLines_cons _ _ hnil, List.forall_mem_cons]
      exact ⟨by simp [hlead, hpiece], ih (by decide) hrest⟩

theorem newline_not_mem_entryLines {e : Entry} (h : IsOptionName e.name.toList) :
    ∀ line ∈ entryLines e, '\n' ∉ line := by
  have hname : '\n' ∉ e.name.toList := h.1.2.2
  exact newline_not_mem_valueLines (by simp [optionLead, hname])
    fun piece hpiece => not_mem_of_mem_splitAll hpiece

theorem newline_not_mem_sectionLines {s : Section} (h : WellNamed s) :
    ∀ line ∈ sectionLines s, '\n' ∉ line := by
  have hname : '\n' ∉ s.name.toList := h.header.2.2
  rw [sectionLines, List.forall_mem_cons]
  refine ⟨by simp [headerLine, hname], ?_⟩
  intro line hline
  obtain ⟨e, he, hline⟩ := List.mem_flatMap.mp hline
  exact newline_not_mem_entryLines (h.options e he) line hline

theorem newline_not_mem_documentLines {sections : List Section} (h : ∀ s ∈ sections, WellNamed s) :
    ∀ line ∈ documentLines sections, '\n' ∉ line := by
  induction sections with
  | nil => simp [documentLines]
  | cons s rest ih =>
    obtain ⟨hs, hrest⟩ := List.forall_mem_cons.mp h
    by_cases hnil : rest = []
    · rw [hnil]
      exact newline_not_mem_sectionLines hs
    · rw [documentLines_cons s hnil]
      intro line hline
      rcases List.mem_append.mp hline with hline | hline
      · exact newline_not_mem_sectionLines hs line hline
      · rcases List.mem_cons.mp hline with rfl | hline
        · exact List.not_mem_nil
        · exact ih hrest line hline

end UnitFiles.Format

import UnitFiles.Proofs.Reading
import UnitFiles.Proofs.Writing

/-! Written sections read option by option. A value loses the blanks at the front of its lines and
at its end. If a backslash is at its end once these are gone, it is open: the lines of the next
option are read as lines of the value, and only an empty line or the end of the text closes it. -/
namespace UnitFiles.Format
open Text

def lastLine (value : List Char) : List Char :=
  (splitAll '\n' value).getLast (splitAll_ne_nil value)

/-- A value as it is read: no line is indented, and the last one is not padded either. -/
def tidied (value : List Char) : List Char :=
  unlines ((splitAll '\n' value).dropLast.map trimStart) ++ trim (lastLine value)

/-- A value that is read together with the line behind it. -/
def Open (value : List Char) : Prop := (trimEnd (lastLine value)).getLast? = some '\\'

instance (value : List Char) : Decidable (Open value) := inferInstanceAs (Decidable (_ = _))

theorem splitAll_eq_concat (value : List Char) :
    splitAll '\n' value = (splitAll '\n' value).dropLast ++ [lastLine value] :=
  (List.dropLast_concat_getLast (splitAll_ne_nil value)).symm

theorem join_concat (pieces : List (List Char)) (last : List Char) :
    join ['\n'] (pieces ++ [last]) = unlines pieces ++ last := by
  induction pieces with
  | nil => rfl
  | cons piece rest ih =>
    rw [List.cons_append, join_cons (by simp), ih, unlines]
    simp

theorem eq_unlines_lastLine (value : List Char) :
    value = unlines (splitAll '\n' value).dropLast ++ lastLine value := by
  rw [← join_concat, ← splitAll_eq_concat, join_splitAll]

/-- Only the last line decides what a text ends with. -/
theorem getLast?_unlines_append {c : Char} (hc : c ≠ '\n') (ls : List (List Char))
    (last : List Char) : (unlines ls ++ last).getLast? = some c ↔ last.getLast? = some c := by
  cases last with
  | cons d rest => rw [List.getLast?_append_of_ne_nil _ (by simp)]
  | nil =>
    have hunlines : (unlines ls).getLast? ≠ some c := by
      rcases List.eq_nil_or_concat' ls with rfl | ⟨front, line, rfl⟩
      · simp [unlines]
      · rw [unlines_append, unlines, unlines, ← List.append_assoc, List.getLast?_concat]
        simpa using Ne.symm hc
    simp [hunlines]

theorem getLast?_trim (s : List Char) : (trim s).getLast? = (trimEnd s).getLast? := by
  have hsuffix : trimStart (trimEnd s) <:+ trimEnd s := List.dropWhile_suffix _
  rw [trim, ← trimStart_trimEnd]
  rcases hnil : trimStart (trimEnd s) with _ | ⟨c, rest⟩
  · -- nothing but blanks are left, and the last one of them would have been dropped
    have hblank : ∀ c ∈ trimEnd s, isBlank c = true := by
      simpa using List.dropWhile_eq_nil_iff.mp hnil
    cases hlast : (trimEnd s).getLast? with
    | none => rfl
    | some c =>
      have hc := unpadded_trimEnd s c hlast
      rw [hblank c (List.mem_of_getLast? hlast)] at hc
      cases hc
  · obtain ⟨front, hfront⟩ := hsuffix
    calc (c :: rest).getLast?
        = (front ++ trimStart (trimEnd s)).getLast? := by
          rw [hnil, List.getLast?_append_of_ne_nil _ (by simp)]
      _ = (trimEnd s).getLast? := by rw [hfront]

theorem open_iff_getLast?_tidied (value : List Char) :
    Open value ↔ (tidied value).getLast? = some '\\' := by
  rw [Open, tidied, getLast?_unlines_append (by decide), getLast?_trim]

theorem trim_concat_backslash (s : List Char) : trim (s ++ ['\\']) = trimStart s ++ ['\\'] := by
  have hbackslash : isBlank '\\' = false := by decide
  have hend : trimEnd ['\\'] = ['\\'] := trimEnd_eq_self (by simp [Unpadded, hbackslash])
  rw [trim, ← trimStart_trimEnd, trimEnd_append _ (by simp [hend]), hend, trimStart, trimStart,
    List.dropWhile_append]
  split
  · rename_i hnil
    rw [List.isEmpty_iff.mp hnil]
    exact List.dropWhile_cons_of_neg (by simp [hbackslash])
  · rfl

theorem IsSectionName.unindented {name : List Char} (h : IsSectionName name) : Unindented name :=
  h.2.1 ▸ unindented_trim name

theorem trim_headerLine (name : List Char) : trim (headerLine name) = headerLine name := by
  apply trim_eq_self
  · have hopen : isBlank '[' = false := by decide
    simp [headerLine, Unindented, hopen]
  · have hclose : isBlank ']' = false := by decide
    rw [headerLine, ← List.cons_append, Unpadded, List.getLast?_concat]
    rintro c ⟨⟩
    exact hclose

theorem step_headerLine {name : List Char} (h : IsSectionName name) (sections : List Section) :
    Progress.step ⟨sections, none⟩ (headerLine name) =
      .ok ⟨sections ++ [⟨.ofList name, []⟩], none⟩ := by
  have hdrop : dropEnd? [']'] (name ++ [']']) = some name := dropEnd?_eq_some_iff.mpr rfl
  have hheader : Line.ofTrimmed (headerLine name) = .ok (.header name) := by
    rw [headerLine, Line.ofTrimmed, hdrop]
    simp [h.1, h.2.1]
  rw [Progress.step, trim_headerLine, hheader]

theorem ofTrimmed_option_line {name : List Char} (h : IsOptionName name) (text : List Char) :
    Line.ofTrimmed (name ++ '=' :: text) = .ok (.option name (trim text)) := by
  obtain ⟨⟨hne, htrim, -⟩, hequals, hbracket, hhash, hsemicolon⟩ := h
  have hsplit : splitFirst '=' (name ++ '=' :: text) = some (name, text) :=
    splitFirst_eq_some_iff.mpr ⟨rfl, hequals⟩
  cases name with
  | nil => contradiction
  | cons c rest =>
    simp only [List.head?_cons, ne_eq, Option.some.injEq] at hbracket hhash hsemicolon
    unfold Line.ofTrimmed
    split
    · rename_i heq
      cases heq
    · rename_i heq
      exact absurd (List.cons.inj heq).1 hhash
    · rename_i heq
      exact absurd (List.cons.inj heq).1 hsemicolon
    · rename_i heq
      exact absurd (List.cons.inj heq).1 hbracket
    · rw [hsplit]
      simp [htrim]

theorem trimEnd_optionLead (name text : List Char) :
    trimEnd (optionLead name ++ text) = name ++ '=' :: trimEnd (' ' :: text) := by
  have hequals : isBlank '=' = false := by decide
  have hkeep : trimEnd ('=' :: ' ' :: text) = '=' :: trimEnd (' ' :: text) := by
    rw [trimEnd_cons, if_neg (by simp [hequals])]
  rw [optionLead, List.append_assoc, List.cons_append, List.cons_append, List.nil_append,
    trimEnd_append _ (by simp [hkeep]), hkeep]

/-- The blanks at the end of an option line belong to its value. -/
theorem ofTrimmed_optionLead {name : List Char} (h : IsOptionName name) (text : List Char) :
    Line.ofTrimmed (trim (optionLead name ++ text)) = .ok (.option name (trim text)) := by
  have hfront : Unindented (name ++ '=' :: trimEnd (' ' :: text)) := by
    have hname := h.1.unindented
    cases name with
    | nil => exact absurd rfl h.1.1
    | cons c rest => exact hname
  rw [trim, ← trimStart_trimEnd, trimEnd_optionLead, trimStart_eq_self hfront,
    ofTrimmed_option_line h, trim_trimEnd, trim_cons_blank (by decide)]

theorem step_optionLead {name : List Char} (h : IsOptionName name) {sections : List Section}
    (hne : sections ≠ []) (text : List Char) :
    Progress.step ⟨sections, none⟩ (optionLead name ++ text) =
      .ok (Progress.settle ⟨sections, none⟩ name (trim text)) := by
  rw [Progress.step, ofTrimmed_optionLead h]
  simp [hne]

/-- The lines of a value are put together again. What has been read of it so far is `before`, and
the next line goes behind that. -/
theorem runs_valueLines {p : Progress} {name lead : List Char} (before : List Char)
    (pieces : List (List Char)) (last : List Char)
    (hstep : ∀ text, p.step (lead ++ text) = .ok (p.settle name (before ++ trim text))) :
    p.Runs (valueLines lead (pieces ++ [last]))
      (p.settle name (before ++ (unlines (pieces.map trimStart) ++ trim last))) := by
  induction pieces generalizing p lead before with
  | nil => exact Progress.Runs.single (hstep last)
  | cons piece rest ih =>
    -- the backslash is dropped, and the piece joins what has been read with a newline
    have hfirst := hstep (piece ++ ['\\'])
    rw [trim_concat_backslash, ← List.append_assoc before, Progress.settle_unfinished] at hfirst
    have hnext : ∀ text, Progress.step ⟨p.sections, some (name, before ++ trimStart piece)⟩
        (['\t'] ++ text) = .ok (Progress.settle ⟨p.sections, some (name, before ++ trimStart piece)⟩
          name (before ++ (trimStart piece ++ ['\n']) ++ trim text)) := by
      intro text
      rw [List.singleton_append, Progress.step, trim_cons_blank (by decide)]
      simp
    have hrest := ih _ hnext
    rw [List.cons_append, valueLines_cons _ _ (by simp)]
    refine Progress.Runs.next hfirst ?_
    simpa [unlines, Progress.settle] using hrest

theorem exists_splitAll_lead {lead : List Char} (h : '\n' ∉ lead) (value : List Char) :
    ∃ piece rest, splitAll '\n' value = piece :: rest ∧
      splitAll '\n' (lead ++ value) = (lead ++ piece) :: rest := by
  induction lead with
  | nil =>
    obtain ⟨piece, rest, hvalue⟩ := List.exists_cons_of_ne_nil (splitAll_ne_nil value)
    exact ⟨piece, rest, hvalue, hvalue⟩
  | cons c lead ih =>
    obtain ⟨hc, hlead⟩ := List.ne_and_not_mem_of_not_mem_cons h
    obtain ⟨piece, rest, hvalue, hall⟩ := ih hlead
    refine ⟨piece, rest, hvalue, ?_⟩
    rw [List.cons_append, splitAll, if_neg (Ne.symm hc), hall]
    rfl

theorem valueLines_lead {lead : List Char} (h : '\n' ∉ lead) (value : List Char) :
    valueLines lead (splitAll '\n' value) = valueLines [] (splitAll '\n' (lead ++ value)) := by
  obtain ⟨piece, rest, hvalue, hall⟩ := exists_splitAll_lead h value
  rw [hvalue, hall]
  cases rest <;> simp [valueLines]

namespace Progress
variable {p : Progress}

/-- What all lines of an option do: a value that is open takes them in as its own. -/
def take (p : Progress) (e : Entry) : Progress :=
  match p.pending with
  | none => p.settle e.name.toList (tidied e.value.toList)
  | some (name, head) =>
    p.settle name (head ++ '\n' :: tidied (optionLead e.name.toList ++ e.value.toList))

/-- The sections if the value that is open ends with `tail`. -/
def close (tail : List Char) (p : Progress) : List Section :=
  match p.pending with
  | none => p.sections
  | some (name, head) => pushLast (.ofList name) (.ofList (head ++ tail)) p.sections

/-- What an empty line and a section behind it do. -/
def takeSection (p : Progress) (s : Section) : Progress :=
  s.entries.foldl take ⟨p.close ['\n'] ++ [⟨s.name, []⟩], none⟩

theorem finish_eq_close (p : Progress) : p.finish = p.close [] := by
  rw [finish, close]
  cases p.pending <;> simp

theorem close_pending (tail name head : List Char) (front : List Section) (s : Section) :
    close tail ⟨front ++ [s], some (name, head)⟩ =
      front ++ [s.push (.ofList name) (.ofList (head ++ tail))] :=
  pushLast_append _ _ front s

theorem step_empty (p : Progress) : p.step [] = .ok ⟨p.close ['\n'], none⟩ := by
  obtain ⟨sections, _ | ⟨name, head⟩⟩ := p
  · rfl
  · have hend : (head ++ ['\n']).getLast? ≠ some '\\' := by simp
    exact congrArg Except.ok (settle_finished hend name)

theorem settle_sections_ne_nil (hne : p.sections ≠ []) (name value : List Char) :
    (p.settle name value).sections ≠ [] := by
  rcases p.settle_cases name value with ⟨head, -, hsettle⟩ | ⟨-, hsettle⟩
  · rwa [hsettle]
  · obtain ⟨front, s, hsections⟩ := (List.eq_nil_or_concat' p.sections).resolve_left hne
    rw [hsettle, hsections, pushLast_append]
    simp

theorem take_sections_ne_nil (hne : p.sections ≠ []) (e : Entry) : (p.take e).sections ≠ [] := by
  rw [take]
  split <;> exact settle_sections_ne_nil hne _ _

theorem runs_entryLines {e : Entry} (named : IsOptionName e.name.toList) (hne : p.sections ≠ []) :
    p.Runs (entryLines e) (p.take e) := by
  obtain ⟨sections, _ | ⟨name, head⟩⟩ := p
  · rw [entryLines, splitAll_eq_concat]
    exact runs_valueLines [] _ _ (step_optionLead named hne)
  · have hname : '\n' ∉ optionLead e.name.toList := by
      have hname := named.1.2.2
      simp [optionLead, hname]
    have hstep : ∀ text, step ⟨sections, some (name, head)⟩ ([] ++ text) =
        .ok (settle ⟨sections, some (name, head)⟩ name (head ++ ['\n'] ++ trim text)) := by
      simp [step]
    have hruns := runs_valueLines _
      (splitAll '\n' (optionLead e.name.toList ++ e.value.toList)).dropLast
      (lastLine (optionLead e.name.toList ++ e.value.toList)) hstep
    rw [← splitAll_eq_concat, ← valueLines_lead hname, List.append_assoc] at hruns
    exact hruns

theorem runs_entries {es : List Entry} (named : ∀ e ∈ es, IsOptionName e.name.toList)
    (hne : p.sections ≠ []) : p.Runs (es.flatMap entryLines) (es.foldl take p) := by
  induction es generalizing p with
  | nil => exact Runs.done p
  | cons e rest ih =>
    obtain ⟨hname, hnames⟩ := List.forall_mem_cons.mp named
    exact (runs_entryLines hname hne).append (ih hnames (take_sections_ne_nil hne e))

theorem runs_sectionLines {s : Section} (named : WellNamed s) (h : p.pending = none) :
    p.Runs (sectionLines s) (p.takeSection s) := by
  obtain ⟨sections, pending⟩ := p
  subst h
  have hheader := step_headerLine named.header sections
  rw [String.ofList_toList] at hheader
  exact Runs.next hheader (runs_entries named.options (by simp))

theorem runs_documentLines_takeSection {sections : List Section}
    (named : ∀ s ∈ sections, WellNamed s) (h : p.pending = none) :
    p.Runs (documentLines sections) (sections.foldl takeSection p) := by
  induction sections generalizing p with
  | nil => exact Runs.done p
  | cons s rest ih =>
    obtain ⟨hname, hnames⟩ := List.forall_mem_cons.mp named
    have hs := runs_sectionLines hname h
    cases rest with
    | nil => exact hs
    | cons t rest =>
      -- the empty line closes the last value, which the header of the next section finds closed
      rw [documentLines_cons s (by simp)]
      exact hs.append (Runs.next (p.takeSection s).step_empty (ih hnames rfl))

end Progress
end UnitFiles.Format

namespace UnitFiles
open Format

def Entry.tidied (e : Entry) : Entry := ⟨e.name, .ofList (Format.tidied e.value.toList)⟩

def Section.tidied (s : Section) : Section := ⟨s.name, s.entries.map Entry.tidied⟩

/-- No option is read together with the line behind it. -/
def Section.Closed (s : Section) : Prop := ∀ e ∈ s.entries, ¬Open e.value.toList

instance (s : Section) : Decidable s.Closed := inferInstanceAs (Decidable (∀ _ ∈ _, _))

end UnitFiles

namespace UnitFiles.Format
open Text

namespace Progress
variable {e : Entry} {es : List Entry} {sections : List Section}

theorem take_closed (closed : ¬Open e.value.toList) (front : List Section) (s : Section) :
    take ⟨front ++ [s], none⟩ e = ⟨front ++ [s.push e.name e.tidied.value], none⟩ := by
  rw [open_iff_getLast?_tidied] at closed
  rw [take, settle_finished closed, pushLast_append, String.ofList_toList]
  rfl

theorem take_open {head : List Char} (hvalue : tidied e.value.toList = head ++ ['\\'])
    (sections : List Section) :
    take ⟨sections, none⟩ e = ⟨sections, some (e.name.toList, head)⟩ := by
  rw [take, hvalue, settle_unfinished]

theorem foldl_take_closed (closed : ∀ e ∈ es, ¬Open e.value.toList) (front : List Section)
    (s : Section) :
    es.foldl take ⟨front ++ [s], none⟩ =
      ⟨front ++ [⟨s.name, s.entries ++ es.map Entry.tidied⟩], none⟩ := by
  induction es generalizing s with
  | nil => simp
  | cons e rest ih =>
    obtain ⟨hvalue, hvalues⟩ := List.forall_mem_cons.mp closed
    rw [List.foldl_cons, take_closed hvalue, ih hvalues, Section.push, List.append_assoc]
    rfl

theorem foldl_takeSection_closed (closed : ∀ s ∈ sections, s.Closed) (front : List Section) :
    sections.foldl takeSection ⟨front, none⟩ = ⟨front ++ sections.map Section.tidied, none⟩ := by
  induction sections generalizing front with
  | nil => simp
  | cons s rest ih =>
    obtain ⟨hvalue, hvalues⟩ := List.forall_mem_cons.mp closed
    have hs : takeSection ⟨front, none⟩ s = ⟨front ++ [s.tidied], none⟩ :=
      foldl_take_closed hvalue front ⟨s.name, []⟩
    rw [List.foldl_cons, hs, ih hvalues, List.append_assoc]
    rfl

end Progress

/-- The sections that reading the text of `sections` gives. -/
def reread (sections : List Section) : List Section :=
  (sections.foldl Progress.takeSection ⟨[], none⟩).finish

theorem read_written (path : String) {sections : List Section}
    (named : ∀ s ∈ sections, WellNamed s) {text : String} (hwrite : write sections = .ok text)
    (hne : reread sections ≠ []) : read path text = .ok ⟨path, reread sections⟩ := by
  obtain ⟨-, rfl⟩ := write_eq_ok_iff.mp hwrite
  refine read_eq_ok_iff.mpr ⟨_, ?_, hne, rfl⟩
  rw [String.toList_ofList, lines_unlines (newline_not_mem_documentLines named)]
  exact Progress.runs_documentLines_takeSection named rfl

end UnitFiles.Format

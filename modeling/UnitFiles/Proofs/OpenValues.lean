import Mathlib.Data.List.Forall2
import UnitFiles.Proofs.Rereading

/-! Options lost between writing and reading. The writer refuses values that end with a backslash,
but not those with blanks behind the backslash, which are open when they are read. An open value
takes in the next option of its section; the next section is safe from it. -/
namespace UnitFiles.Format
open Text

/-- Of the old value only blanks are missing. -/
structure LosesBlanks (old new : List Char) : Prop where
  sublist : new.Sublist old
  kept : (new.filter fun c => !isBlank c) = old.filter fun c => !isBlank c

end UnitFiles.Format

namespace UnitFiles
open Format

def Section.optionNames (s : Section) : List String := s.entries.map Entry.name

/-- The same options, with values that differ in lost blanks at most. -/
def Section.SameButBlanks (old new : Section) : Prop :=
  new.name = old.name ∧
    List.Forall₂ (fun e f => f.name = e.name ∧ LosesBlanks e.value.toList f.value.toList)
      old.entries new.entries

end UnitFiles

namespace UnitFiles.Format
open Text

section Blanks

theorem filter_trimStart (s : List Char) :
    ((trimStart s).filter fun c => !isBlank c) = s.filter fun c => !isBlank c := by
  rw [trimStart]
  induction s with
  | nil => rfl
  | cons c rest ih =>
    cases hc : isBlank c with
    | true => simp [hc, ih]
    | false => rw [List.dropWhile_cons_of_neg (by simp [hc])]

theorem filter_trim (s : List Char) :
    ((trim s).filter fun c => !isBlank c) = s.filter fun c => !isBlank c := by
  rw [trim, trimEnd, ← trimStart, List.filter_reverse, filter_trimStart, List.filter_reverse,
    List.reverse_reverse, filter_trimStart]

theorem filter_unlines_map_trimStart (ls : List (List Char)) :
    ((unlines (ls.map trimStart)).filter fun c => !isBlank c) =
      (unlines ls).filter fun c => !isBlank c := by
  induction ls with
  | nil => rfl
  | cons line rest ih =>
    rw [List.map_cons, unlines, unlines, List.filter_append, List.filter_append, filter_trimStart,
      List.filter_cons, List.filter_cons, ih]

theorem unlines_map_trimStart_sublist (ls : List (List Char)) :
    (unlines (ls.map trimStart)).Sublist (unlines ls) := by
  induction ls with
  | nil => exact List.Sublist.refl _
  | cons line rest ih => exact (trimStart_sublist line).append (ih.cons_cons '\n')

theorem losesBlanks_tidied (value : List Char) : LosesBlanks value (tidied value) := by
  rw [tidied]
  constructor
  · conv_rhs => rw [eq_unlines_lastLine value]
    exact (unlines_map_trimStart_sublist _).append (trim_sublist _)
  · conv_rhs => rw [eq_unlines_lastLine value]
    rw [List.filter_append, List.filter_append, filter_unlines_map_trimStart, filter_trim]

/-- The backslash of an open value is no blank, and it is gone. -/
theorem not_losesBlanks_head {value head tail : List Char} (hopen : tidied value = head ++ ['\\'])
    (htail : ∀ c ∈ tail, isBlank c = true) : ¬LosesBlanks value (head ++ tail) := by
  intro h
  have hbackslash : isBlank '\\' = false := by decide
  have hblank : (tail.filter fun c => !isBlank c) = [] := by simpa using htail
  have hkept := h.kept
  rw [← (losesBlanks_tidied value).kept, hopen, List.filter_append, List.filter_append,
    hblank] at hkept
  simp [hbackslash] at hkept

end Blanks

namespace Progress
variable {p : Progress} {front : List Section} {s : Section}

theorem exists_settle (h : p.sections = front ++ [s]) (name value : List Char) :
    ∃ t, (p.settle name value).sections = front ++ [t] ∧ t.name = s.name ∧
      t.entries.length + (p.settle name value).pending.toList.length = s.entries.length + 1 := by
  rcases p.settle_cases name value with ⟨head, -, hsettle⟩ | ⟨-, hsettle⟩
  · rw [hsettle]
    exact ⟨s, h, rfl, rfl⟩
  · rw [hsettle, h, pushLast_append]
    exact ⟨_, rfl, rfl, by simp [Section.push]⟩

/-- The option that is open counts as one of the section. -/
theorem exists_take (h : p.sections = front ++ [s]) (e : Entry) :
    ∃ t, (p.take e).sections = front ++ [t] ∧ t.name = s.name ∧
      t.entries.length + (p.take e).pending.toList.length = s.entries.length + 1 := by
  rw [take]
  split <;> exact exists_settle h _ _

theorem exists_foldl_take (h : p.sections = front ++ [s]) (e : Entry) (rest : List Entry) :
    ∃ t, ((e :: rest).foldl take p).sections = front ++ [t] ∧ t.name = s.name ∧
      t.entries.length + ((e :: rest).foldl take p).pending.toList.length ≤
        s.entries.length + (rest.length + 1) := by
  induction rest generalizing p s e with
  | nil =>
    obtain ⟨t, hsections, hname, hcount⟩ := exists_take h e
    exact ⟨t, hsections, hname, hcount.le⟩
  | cons f rest ih =>
    obtain ⟨t, hsections, hname, hcount⟩ := exists_take h e
    obtain ⟨u, husections, huname, hucount⟩ := ih hsections f
    refine ⟨u, husections, huname.trans hname, ?_⟩
    rw [List.foldl_cons, List.length_cons]
    omega

/-- An option with another one behind it that is open costs an option. -/
theorem exists_foldl_take_lt {es : List Entry} (front : List Section) (s : Section)
    (hopen : ∃ e ∈ es.dropLast, Open e.value.toList) :
    ∃ t, (es.foldl take ⟨front ++ [s], none⟩).sections = front ++ [t] ∧ t.name = s.name ∧
      t.entries.length + (es.foldl take ⟨front ++ [s], none⟩).pending.toList.length <
        s.entries.length + es.length := by
  induction es generalizing s with
  | nil => simp at hopen
  | cons e rest ih =>
    cases rest with
    | nil => simp at hopen
    | cons f rest =>
      rw [List.foldl_cons, List.length_cons]
      by_cases he : Open e.value.toList
      · obtain ⟨head, hvalue⟩ := List.getLast?_eq_some_iff.mp ((open_iff_getLast?_tidied _).mp he)
        have htake := take_open hvalue (front ++ [s])
        obtain ⟨t, hsections, hname, hcount⟩ :=
          exists_foldl_take (p := take ⟨front ++ [s], none⟩ e) (by rw [htake]) f rest
        refine ⟨t, hsections, hname, ?_⟩
        rw [List.length_cons]
        omega
      · have hrest : ∃ g ∈ (f :: rest).dropLast, Open g.value.toList := by
          obtain ⟨g, hg, hopen⟩ := hopen
          rw [List.dropLast_cons_cons] at hg
          rcases List.mem_cons.mp hg with rfl | hg
          · contradiction
          · exact ⟨g, hg, hopen⟩
        obtain ⟨t, hsections, hname, hcount⟩ := ih (s.push e.name e.tidied.value) hrest
        have hpush : (s.push e.name e.tidied.value).entries.length = s.entries.length + 1 :=
          by simp [Section.push]
        rw [take_closed he]
        refine ⟨t, hsections, hname, ?_⟩
        omega

theorem exists_close (h : p.sections = front ++ [s]) (tail : List Char) :
    ∃ t, p.close tail = front ++ [t] ∧ t.name = s.name ∧
      t.entries.length = s.entries.length + p.pending.toList.length := by
  obtain ⟨sections, _ | ⟨name, head⟩⟩ := p
  · exact ⟨s, h, rfl, rfl⟩
  · obtain rfl : sections = front ++ [s] := h
    exact ⟨_, close_pending tail name head front s, rfl, by simp [Section.push]⟩

end Progress

/-- What is read of a section: it keeps its name, its options if only the last one is open, and
their values up to blanks if none is. -/
structure ReadAs (old new : Section) : Prop where
  name : new.name = old.name
  options : new.optionNames = old.optionNames ↔
    ∀ e ∈ old.entries.dropLast, ¬Open e.value.toList
  values : old.SameButBlanks new ↔ old.Closed

theorem ReadAs.of_length_lt {old new : Section} (hname : new.name = old.name)
    (hlength : new.entries.length < old.entries.length)
    (hopen : ∃ e ∈ old.entries.dropLast, Open e.value.toList) : ReadAs old new := by
  obtain ⟨e, he, hopen⟩ := hopen
  refine ⟨hname, iff_of_false ?_ ?_, iff_of_false ?_ ?_⟩
  · intro h
    have := congrArg List.length h
    simp only [Section.optionNames, List.length_map] at this
    omega
  · exact fun h => h e he hopen
  · intro h
    have := h.2.length_eq
    omega
  · exact fun h => h e (List.dropLast_subset _ he) hopen

theorem forall₂_concat_iff {α β : Type} {R : α → β → Prop} {as : List α} {bs : List β} {a : α}
    {b : β} : List.Forall₂ R (as ++ [a]) (bs ++ [b]) ↔ List.Forall₂ R as bs ∧ R a b := by
  rw [← List.forall₂_reverse_iff, List.reverse_concat, List.reverse_concat, List.forall₂_cons,
    List.forall₂_reverse_iff, and_comm]

/-- Only the value of the last option is in question if all before it are closed. -/
theorem ReadAs.of_last {name : String} {es : List Entry} {e : Entry} (value : List Char)
    (closed : ∀ f ∈ es, ¬Open f.value.toList)
    (hlast : LosesBlanks e.value.toList value ↔ ¬Open e.value.toList) :
    ReadAs ⟨name, es ++ [e]⟩ ⟨name, es.map Entry.tidied ++ [⟨e.name, .ofList value⟩]⟩ := by
  have hfront : List.Forall₂
      (fun f g => g.name = f.name ∧ LosesBlanks f.value.toList g.value.toList)
      es (es.map Entry.tidied) := by
    rw [List.forall₂_map_right_iff, List.forall₂_same]
    intro f _
    rw [Entry.tidied, String.toList_ofList]
    exact ⟨rfl, losesBlanks_tidied _⟩
  refine ⟨rfl, iff_of_true ?_ ?_, ?_⟩
  · simp [Section.optionNames, Function.comp_def, Entry.tidied]
  · simpa using closed
  · rw [Section.SameButBlanks, forall₂_concat_iff, String.toList_ofList, hlast, Section.Closed,
      List.forall_mem_append, List.forall_mem_singleton]
    exact ⟨fun h => ⟨closed, h.2.2.2⟩, fun h => ⟨rfl, hfront, rfl, h.2⟩⟩

/-- An empty line or the end of the text closes what a section leaves open. -/
theorem exists_readAs (p : Progress) (s : Section) {tail : List Char}
    (htail : ∀ c ∈ tail, isBlank c = true) :
    ∃ t, (p.takeSection s).close tail = p.close ['\n'] ++ [t] ∧ ReadAs s t := by
  obtain ⟨name, entries⟩ := s
  rw [Progress.takeSection]
  by_cases hopen : ∃ e ∈ entries.dropLast, Open e.value.toList
  · obtain ⟨u, hsections, huname, hucount⟩ :=
      Progress.exists_foldl_take_lt (p.close ['\n']) ⟨name, []⟩ hopen
    obtain ⟨t, hclose, hname, hcount⟩ := Progress.exists_close hsections tail
    refine ⟨t, hclose, ReadAs.of_length_lt (hname.trans huname) ?_ hopen⟩
    rw [hcount]
    simpa using hucount
  · push Not at hopen
    rcases List.eq_nil_or_concat' entries with rfl | ⟨es, e, rfl⟩
    · refine ⟨⟨name, []⟩, rfl, rfl, iff_of_true rfl ?_, iff_of_true ⟨rfl, .nil⟩ ?_⟩
      · simp
      · simp [Section.Closed]
    · rw [List.dropLast_concat] at hopen
      rw [List.foldl_append, Progress.foldl_take_closed hopen, List.foldl_cons, List.foldl_nil]
      by_cases he : Open e.value.toList
      · obtain ⟨head, hvalue⟩ := List.getLast?_eq_some_iff.mp ((open_iff_getLast?_tidied _).mp he)
        refine ⟨_, ?_, ReadAs.of_last (head ++ tail) hopen ?_⟩
        · rw [Progress.take_open hvalue, Progress.close_pending, String.ofList_toList]
          rfl
        · exact iff_of_false (not_losesBlanks_head hvalue htail) (not_not_intro he)
      · refine ⟨_, ?_, ReadAs.of_last (tidied e.value.toList) hopen ?_⟩
        · rw [Progress.take_closed he]
          rfl
        · exact iff_of_true (losesBlanks_tidied _) he

theorem exists_forall₂_readAs (p : Progress) {sections : List Section} (nonempty : sections ≠ []) :
    ∃ found, (sections.foldl Progress.takeSection p).finish = p.close ['\n'] ++ found ∧
      List.Forall₂ ReadAs sections found := by
  have hnewline : ∀ c ∈ ['\n'], isBlank c = true := by
    rw [List.forall_mem_singleton]
    decide
  have hnothing : ∀ c ∈ ([] : List Char), isBlank c = true := by simp
  rw [Progress.finish_eq_close]
  induction sections generalizing p with
  | nil => exact absurd rfl nonempty
  | cons s rest ih =>
    cases rest with
    | nil =>
      obtain ⟨t, hclose, hread⟩ := exists_readAs p s hnothing
      exact ⟨[t], hclose, .cons hread .nil⟩
    | cons r rest =>
      obtain ⟨t, hclose, hread⟩ := exists_readAs p s hnewline
      obtain ⟨ts, hrest, hreads⟩ := ih (p.takeSection s) (by simp)
      refine ⟨t :: ts, ?_, .cons hread hreads⟩
      rw [List.foldl_cons, hrest, hclose, List.append_assoc]
      rfl

theorem map_name_of_readAs {sections found : List Section}
    (h : List.Forall₂ ReadAs sections found) :
    found.map Section.name = sections.map Section.name := by
  induction h with
  | nil => rfl
  | cons hread _ ih => rw [List.map_cons, List.map_cons, hread.name, ih]

theorem map_optionNames_iff_of_readAs {sections found : List Section}
    (h : List.Forall₂ ReadAs sections found) :
    found.map Section.optionNames = sections.map Section.optionNames ↔
      ∀ s ∈ sections, ∀ e ∈ s.entries.dropLast, ¬Open e.value.toList := by
  induction h with
  | nil => simp
  | cons hread _ ih =>
    rw [List.map_cons, List.map_cons, List.cons_eq_cons, hread.options, ih, List.forall_mem_cons]

theorem sameButBlanks_iff_of_readAs {sections found : List Section}
    (h : List.Forall₂ ReadAs sections found) :
    List.Forall₂ Section.SameButBlanks sections found ↔ ∀ s ∈ sections, s.Closed := by
  induction h with
  | nil => simp
  | cons hread _ ih => rw [List.forall₂_cons, hread.values, ih, List.forall_mem_cons]

/-- What is written can be read, and no section is lost. The options are the same exactly when no
option is open that has another one of its section behind it; the values are the same up to blanks
exactly when no option is open at all. -/
theorem read_write_open_values (path : String) {sections : List Section}
    (nonempty : sections ≠ []) (named : ∀ s ∈ sections, WellNamed s) {text : String}
    (hwrite : write sections = .ok text) :
    ∃ found, read path text = .ok ⟨path, found⟩ ∧
      found.map Section.name = sections.map Section.name ∧
      (found.map Section.optionNames = sections.map Section.optionNames ↔
        ∀ s ∈ sections, ∀ e ∈ s.entries.dropLast, ¬Open e.value.toList) ∧
      (List.Forall₂ Section.SameButBlanks sections found ↔ ∀ s ∈ sections, s.Closed) := by
  obtain ⟨found, hfinish, hread⟩ := exists_forall₂_readAs ⟨[], none⟩ nonempty
  have hnames := map_name_of_readAs hread
  have hfound : reread sections = found := hfinish
  have hne : found ≠ [] := by
    rintro rfl
    exact nonempty (List.map_eq_nil_iff.mp hnames.symm)
  refine ⟨found, ?_, hnames, map_optionNames_iff_of_readAs hread, sameButBlanks_iff_of_readAs hread⟩
  have hwritten := read_written path named hwrite (hfound ▸ hne)
  rwa [hfound] at hwritten

def directories : List Section := [⟨"Test", [⟨"Dir", "C:\\tmp\\ "⟩, ⟨"Other", "x"⟩]⟩]

/-- The blank behind the last backslash gets the value past the writer. -/
theorem read_write_directories :
    (∀ s ∈ directories, WellNamed s) ∧
      write directories = .ok "[Test]\nDir= C:\\tmp\\ \nOther= x\n" ∧
      read "a.unit" "[Test]\nDir= C:\\tmp\\ \nOther= x\n" =
        .ok ⟨"a.unit", [⟨"Test", [⟨"Dir", "C:\\tmp\nOther= x"⟩]⟩]⟩ := by
  decide +kernel

def lastDirectory : List Section := [⟨"Test", [⟨"Other", "x"⟩, ⟨"Dir", "C:\\tmp\\ "⟩]⟩]

theorem read_write_lastDirectory :
    ∃ found, read "a.unit" "[Test]\nOther= x\nDir= C:\\tmp\\ \n" = .ok ⟨"a.unit", found⟩ ∧
      found.map Section.optionNames = lastDirectory.map Section.optionNames ∧
      ¬List.Forall₂ Section.SameButBlanks lastDirectory found := by
  have hwrite : write lastDirectory = .ok "[Test]\nOther= x\nDir= C:\\tmp\\ \n" := by decide +kernel
  obtain ⟨found, hread, -, hoptions, hvalues⟩ :=
    read_write_open_values "a.unit" (by decide) (by decide +kernel) hwrite
  refine ⟨found, hread, hoptions.mpr (by decide +kernel), fun h => ?_⟩
  exact absurd (hvalues.mp h) (by decide +kernel)

end UnitFiles.Format

import UnitFiles.Proofs.Rereading

/-! Texts put one behind the other. Whatever sections come before, the lines of a text do the same
to the sections behind them, so two texts are read one after the other unless a value of the first
one goes on in the second. -/
namespace UnitFiles.Text

theorem lines_ne_nil {s : List Char} (h : s ≠ []) : lines s ≠ [] := by
  cases s with
  | nil => contradiction
  | cons c rest =>
    by_cases hc : c = '\n'
    · simp [hc, lines]
    · rw [lines_cons hc]
      cases lines rest <;> simp

/-- A newline at the end of a text keeps its lines apart from those behind it. -/
theorem lines_append {a : List Char} (h : a.getLast? = some '\n') (b : List Char) :
    lines (a ++ b) = lines a ++ lines b := by
  obtain ⟨front, rfl⟩ := List.getLast?_eq_some_iff.mp h
  clear h
  induction front with
  | nil => rfl
  | cons c front ih =>
    by_cases hc : c = '\n'
    · rw [hc]
      exact congrArg ([] :: ·) ih
    · rw [List.cons_append, List.cons_append, lines_cons hc, ih, lines_cons hc]
      have hne : lines (front ++ ['\n']) ≠ [] := lines_ne_nil (by simp)
      cases hfront : lines (front ++ ['\n']) with
      | nil => contradiction
      | cons line more => rfl

end UnitFiles.Text

namespace UnitFiles.Format
open Text

theorem pushLast_behind (name value : String) (front : List Section) {sections : List Section}
    (h : sections ≠ []) :
    pushLast name value (front ++ sections) = front ++ pushLast name value sections := by
  obtain ⟨before, last, rfl⟩ := (List.eq_nil_or_concat' sections).resolve_left h
  rw [← List.append_assoc, pushLast_append, pushLast_append, List.append_assoc]

/-- A value that asks for another line stands in a line that ends with a backslash. -/
theorem Line.getLast?_of_option {line name value : List Char} (hback : Unpadded line)
    (h : ofTrimmed line = .ok (.option name value)) (hvalue : value.getLast? = some '\\') :
    line.getLast? = some '\\' := by
  obtain ⟨a, b, rfl, -, -, rfl⟩ := ofTrimmed_option h
  have hb : b ≠ [] := by
    rintro rfl
    cases hvalue
  have hlast : (a ++ '=' :: b).getLast? = b.getLast? := by
    rw [List.getLast?_append_of_ne_nil _ (by simp), List.getLast?_cons_of_ne_nil hb]
  rw [Unpadded, hlast] at hback
  rw [hlast, ← hvalue, getLast?_trim, trimEnd_eq_self hback]

namespace Progress
variable {p q : Progress}

def behind (front : List Section) (p : Progress) : Progress :=
  ⟨front ++ p.sections, p.pending⟩

/-- A value that is not finished has a section to go to. -/
def Placed (p : Progress) : Prop := p.pending.isSome = true → p.sections ≠ []

theorem placed_start : Placed ⟨[], none⟩ := by simp [Placed]

theorem Placed.step {line : List Char} (h : p.Placed) (hstep : p.step line = .ok q) : q.Placed := by
  rcases step_eq_ok_iff.mp hstep with ⟨name, head, hpending, rfl⟩ | ⟨hpending, hstep⟩
  · have hne : p.sections ≠ [] := h (by rw [hpending]; rfl)
    exact fun _ => settle_sections_ne_nil hne _ _
  · rcases hstep with ⟨-, rfl⟩ | ⟨name, -, rfl⟩ | ⟨name, value, -, hne, rfl⟩
    · exact h
    · simp [Placed]
    · exact fun _ => settle_sections_ne_nil hne _ _

theorem settle_behind (h : p.sections ≠ []) (front : List Section) (name value : List Char) :
    (p.behind front).settle name value = (p.settle name value).behind front := by
  rcases p.settle_cases name value with ⟨head, rfl, hsettle⟩ | ⟨hlast, hsettle⟩
  · rw [hsettle, settle_unfinished]
    rfl
  · rw [hsettle, settle_finished hlast, behind, pushLast_behind _ _ _ h]
    rfl

theorem Placed.step_behind {line : List Char} (h : p.Placed) (hstep : p.step line = .ok q)
    (front : List Section) : (p.behind front).step line = .ok (q.behind front) := by
  rw [step_eq_ok_iff] at hstep ⊢
  rcases hstep with ⟨name, head, hpending, rfl⟩ | ⟨hpending, hstep⟩
  · have hne : p.sections ≠ [] := h (by rw [hpending]; rfl)
    exact Or.inl ⟨name, head, hpending, settle_behind hne front _ _⟩
  · refine Or.inr ⟨hpending, ?_⟩
    rcases hstep with ⟨hnothing, rfl⟩ | ⟨name, hheader, rfl⟩ | ⟨name, value, hoption, hne, rfl⟩
    · exact Or.inl ⟨hnothing, rfl⟩
    · exact Or.inr (Or.inl ⟨name, hheader, by simp [behind]⟩)
    · exact Or.inr (Or.inr ⟨name, value, hoption, by simp [behind, hne],
        settle_behind hne front name value⟩)

theorem Placed.runs_behind {ls : List (List Char)} (h : p.Placed) (hruns : p.Runs ls q)
    (front : List Section) : (p.behind front).Runs ls (q.behind front) ∧ q.Placed := by
  induction hruns with
  | done p => exact ⟨Runs.done _, h⟩
  | next hstep _ ih =>
    obtain ⟨hrest, hplaced⟩ := ih (h.step hstep)
    exact ⟨Runs.next (h.step_behind hstep front) hrest, hplaced⟩

theorem Placed.finish_behind (h : p.Placed) (front : List Section) :
    (p.behind front).finish = front ++ p.finish := by
  obtain ⟨sections, _ | ⟨name, head⟩⟩ := p
  · rfl
  · exact pushLast_behind _ _ front (h rfl)

/-- After a line without a backslash at its end, no value is waiting for another line. -/
theorem pending_step {line : List Char} (hstep : p.step line = .ok q)
    (hline : (trim line).getLast? ≠ some '\\') : q.pending = none := by
  rcases step_eq_ok_iff.mp hstep with ⟨name, head, -, rfl⟩ | ⟨hpending, hstep⟩
  · have hvalue : (head ++ '\n' :: trim line).getLast? ≠ some '\\' := by
      rw [List.getLast?_append_of_ne_nil _ (by simp)]
      cases htrim : trim line with
      | nil => simp
      | cons c rest => rwa [List.getLast?_cons_cons, ← htrim]
    rw [settle_finished hvalue]
  · rcases hstep with ⟨-, rfl⟩ | ⟨name, -, rfl⟩ | ⟨name, value, hoption, -, rfl⟩
    · exact hpending
    · rfl
    · rw [settle_finished fun hvalue =>
        hline (Line.getLast?_of_option (unpadded_trim line) hoption hvalue)]

theorem pending_runs {ls : List (List Char)} {last : List Char} (hruns : p.Runs (ls ++ [last]) q)
    (hlast : (trim last).getLast? ≠ some '\\') : q.pending = none := by
  obtain ⟨r, -, hstep⟩ := runs_append_iff.mp hruns
  exact pending_step (runs_singleton_iff.mp hstep) hlast

end Progress

/-- Two texts, one behind the other, hold the sections of the first and then those of the second.
The first text has to end with a line of its own, which does not go on in the second one. -/
theorem read_append {firstPath secondPath a b : String} {d e : Document}
    (ha : read firstPath a = .ok d) (hb : read secondPath b = .ok e)
    (hnewline : a.toList.getLast? = some '\n')
    (hlast : ∀ line ∈ (lines a.toList).getLast?, (trim line).getLast? ≠ some '\\')
    (path : String) : read path (a ++ b) = .ok ⟨path, d.sections ++ e.sections⟩ := by
  obtain ⟨p, hp, hpne, rfl⟩ := read_eq_ok_iff.mp ha
  obtain ⟨q, hq, -, rfl⟩ := read_eq_ok_iff.mp hb
  have hpending : p.pending = none := by
    have hne : lines a.toList ≠ [] := lines_ne_nil fun hnil => by simp [hnil] at hnewline
    rw [← List.dropLast_concat_getLast hne] at hp
    exact Progress.pending_runs hp (hlast _ (List.getLast?_eq_some_getLast hne))
  have hfinish : p.finish = p.sections := by rw [Progress.finish, hpending]
  have hstart : Progress.behind p.sections ⟨[], none⟩ = p := by
    rw [Progress.behind, List.append_nil, ← hpending]
  obtain ⟨hbehind, hplaced⟩ := Progress.placed_start.runs_behind hq p.sections
  rw [hstart] at hbehind
  refine read_eq_ok_iff.mpr ⟨q.behind p.sections, ?_, ?_, ?_⟩
  · rw [String.toList_append, lines_append hnewline]
    exact hp.append hbehind
  · rw [hplaced.finish_behind, ← hfinish]
    simp [hpne]
  · rw [hplaced.finish_behind, ← hfinish]

/-- A value that goes on within the first text, and a comment that ends with a backslash. -/
theorem read_append_continued :
    read "a.unit" "[A]\nKey= x \\\r\n\ty\n" =
        .ok ⟨"a.unit", [⟨"A", [⟨"Key", "x \ny"⟩]⟩]⟩ ∧
      read "b.unit" "; note \\\n[B]\nKey= z\\" = .ok ⟨"b.unit", [⟨"B", [⟨"Key", "z"⟩]⟩]⟩ ∧
      read "c.unit" ("[A]\nKey= x \\\r\n\ty\n" ++ "; note \\\n[B]\nKey= z\\") =
        .ok ⟨"c.unit", [⟨"A", [⟨"Key", "x \ny"⟩]⟩, ⟨"B", [⟨"Key", "z"⟩]⟩]⟩ := by
  have ha : read "a.unit" "[A]\nKey= x \\\r\n\ty\n" =
      .ok ⟨"a.unit", [⟨"A", [⟨"Key", "x \ny"⟩]⟩]⟩ := by decide +kernel
  have hb : read "b.unit" "; note \\\n[B]\nKey= z\\" =
      .ok ⟨"b.unit", [⟨"B", [⟨"Key", "z"⟩]⟩]⟩ := by decide +kernel
  exact ⟨ha, hb, read_append ha hb (by decide +kernel) (by decide +kernel) "c.unit"⟩

end UnitFiles.Format

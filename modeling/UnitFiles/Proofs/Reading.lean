import UnitFiles.Format.Reader
import UnitFiles.Proofs.Pieces

/-! Reading as a run over lines. One step takes in one line, and every value that a run puts into
a section has the form that the steps give it. -/
namespace UnitFiles.Format
open Text

/-- A value that is the same after it is written and read: none of its lines is indented, no blank
is at its end, and its end does not ask for another line. -/
structure Stable (value : List Char) : Prop where
  unindented : ∀ line ∈ splitAll '\n' value, Unindented line
  unpadded : ∀ line ∈ (splitAll '\n' value).getLast?, Unpadded line
  finished : value.getLast? ≠ some '\\'

instance (value : List Char) : Decidable (Stable value) :=
  decidable_of_iff
    ((∀ line ∈ splitAll '\n' value, Unindented line) ∧
      (∀ line ∈ (splitAll '\n' value).getLast?, Unpadded line) ∧ value.getLast? ≠ some '\\')
    ⟨fun h => ⟨h.1, h.2.1, h.2.2⟩, fun h => ⟨h.unindented, h.unpadded, h.finished⟩⟩

theorem pushLast_append (name value : String) (front : List Section) (s : Section) :
    pushLast name value (front ++ [s]) = front ++ [s.push name value] := by
  induction front with
  | nil => rfl
  | cons t rest ih =>
    rw [List.cons_append, List.cons_append, ← ih]
    cases rest <;> rfl

namespace Line

theorem ofTrimmed_option {line name value : List Char}
    (h : ofTrimmed line = .ok (.option name value)) :
    ∃ a b, line = a ++ '=' :: b ∧ '=' ∉ a ∧ name = trim a ∧ value = trim b := by
  unfold ofTrimmed at h
  split at h
  · cases h
  · cases h
  · cases h
  · split at h
    · cases h
    · split at h <;> cases h
  · split at h
    · cases h
    · rename_i a b hsplit
      split at h
      · cases h
      · cases h
        obtain ⟨hline, ha⟩ := splitFirst_eq_some_iff.mp hsplit
        exact ⟨a, b, hline, ha, rfl, rfl⟩

theorem value_subset {line name value : List Char}
    (h : ofTrimmed line = .ok (.option name value)) : value ⊆ line := by
  obtain ⟨a, b, rfl, -, -, rfl⟩ := ofTrimmed_option h
  intro c hc
  exact List.mem_append_right _ (List.mem_cons_of_mem _ ((trim_sublist b).subset hc))

end Line

namespace Progress

inductive Runs : Progress → List (List Char) → Progress → Prop
  | done (p : Progress) : Runs p [] p
  | next {p q r : Progress} {line : List Char} {rest : List (List Char)} :
      p.step line = .ok q → Runs q rest r → Runs p (line :: rest) r

variable {p q r : Progress}

theorem Runs.append {a b : List (List Char)} (ha : p.Runs a q) (hb : q.Runs b r) :
    p.Runs (a ++ b) r := by
  induction ha with
  | done => exact hb
  | next hstep _ ih => exact Runs.next hstep (ih hb)

theorem Runs.single {line : List Char} (h : p.step line = .ok q) : p.Runs [line] q :=
  Runs.next h (Runs.done q)

theorem runs_append_iff {a b : List (List Char)} :
    p.Runs (a ++ b) r ↔ ∃ q, p.Runs a q ∧ q.Runs b r := by
  constructor
  · intro h
    induction a generalizing p with
    | nil => exact ⟨p, Runs.done p, h⟩
    | cons line rest ih =>
      cases h with
      | next hstep hrest =>
        obtain ⟨q, ha, hb⟩ := ih hrest
        exact ⟨q, Runs.next hstep ha, hb⟩
  · rintro ⟨q, ha, hb⟩
    exact ha.append hb

theorem runs_singleton_iff {line : List Char} : p.Runs [line] q ↔ p.step line = .ok q := by
  constructor
  · intro h
    cases h with
    | next hstep hrest =>
      cases hrest
      exact hstep
  · exact Runs.single

/-- What every step on such a line keeps, a run over such lines keeps. -/
theorem Runs.keeps {P : Progress → Prop} {Q : List Char → Prop} {ls : List (List Char)}
    (hruns : p.Runs ls q) (hlines : ∀ line ∈ ls, Q line)
    (hkeeps : ∀ {p q : Progress} {line : List Char}, Q line → P p → p.step line = .ok q → P q)
    (h : P p) : P q := by
  induction hruns with
  | done => exact h
  | next hstep _ ih =>
    obtain ⟨hline, hrest⟩ := List.forall_mem_cons.mp hlines
    exact ih hrest (hkeeps hline h hstep)

theorem readLines_eq_ok_iff {n : Nat} {ls : List (List Char)} :
    readLines n p ls = .ok q ↔ p.Runs ls q := by
  induction ls generalizing n p with
  | nil =>
    rw [readLines, Except.ok.injEq]
    constructor
    · rintro rfl
      exact Runs.done p
    · rintro ⟨⟩
      rfl
  | cons line rest ih =>
    rw [readLines]
    constructor
    · intro h
      split at h
      · cases h
      · rename_i next hstep
        exact Runs.next hstep (ih.mp h)
    · intro h
      cases h with
      | next hstep hrest =>
        rw [hstep]
        exact ih.mpr hrest

theorem settle_unfinished (name head : List Char) :
    p.settle name (head ++ ['\\']) = ⟨p.sections, some (name, head)⟩ := by
  have hdrop : dropEnd? ['\\'] (head ++ ['\\']) = some head := dropEnd?_eq_some_iff.mpr rfl
  rw [settle, hdrop]

theorem settle_finished {value : List Char} (h : value.getLast? ≠ some '\\') (name : List Char) :
    p.settle name value = ⟨pushLast (.ofList name) (.ofList value) p.sections, none⟩ := by
  rw [settle, dropEnd?_singleton_eq_none_iff.mpr h]

theorem settle_cases (p : Progress) (name value : List Char) :
    (∃ head, value = head ++ ['\\'] ∧ p.settle name value = ⟨p.sections, some (name, head)⟩) ∨
      value.getLast? ≠ some '\\' ∧
        p.settle name value = ⟨pushLast (.ofList name) (.ofList value) p.sections, none⟩ := by
  by_cases hlast : value.getLast? = some '\\'
  · obtain ⟨head, rfl⟩ := List.getLast?_eq_some_iff.mp hlast
    exact Or.inl ⟨head, rfl, settle_unfinished name head⟩
  · exact Or.inr ⟨hlast, settle_finished hlast name⟩

theorem settle_pending {name value name' head : List Char}
    (h : (p.settle name value).pending = some (name', head)) :
    name = name' ∧ value = head ++ ['\\'] := by
  rcases p.settle_cases name value with ⟨start, rfl, hsettle⟩ | ⟨-, hsettle⟩
  · rw [hsettle] at h
    cases h
    exact ⟨rfl, rfl⟩
  · rw [hsettle] at h
    cases h

/-- All that a line can do: it goes on with a value that is not finished, says nothing, begins a
section or gives an option. -/
theorem step_eq_ok_iff {line : List Char} :
    p.step line = .ok q ↔
      (∃ name head, p.pending = some (name, head) ∧
        p.settle name (head ++ '\n' :: trim line) = q) ∨
      p.pending = none ∧
        (Line.ofTrimmed (trim line) = .ok .nothing ∧ p = q ∨
          (∃ name, Line.ofTrimmed (trim line) = .ok (.header name) ∧
            ⟨p.sections ++ [⟨.ofList name, []⟩], none⟩ = q) ∨
          ∃ name value, Line.ofTrimmed (trim line) = .ok (.option name value) ∧
            p.sections ≠ [] ∧ p.settle name value = q) := by
  rw [step]
  cases hpending : p.pending with
  | some pair =>
    obtain ⟨name, head⟩ := pair
    simp
  | none =>
    cases Line.ofTrimmed (trim line) with
    | error fault => simp
    | ok meaning =>
      cases meaning with
      | nothing => simp
      | header name => simp
      | option name value => by_cases hnone : p.sections = [] <;> simp [hnone]

end Progress

theorem read_eq_ok_iff {path text : String} {d : Document} :
    read path text = .ok d ↔ ∃ p, Progress.Runs ⟨[], none⟩ (lines text.toList) p ∧
      p.finish ≠ [] ∧ ⟨path, p.finish⟩ = d := by
  simp only [← Progress.readLines_eq_ok_iff (n := 1), read]
  cases readLines 1 ⟨[], none⟩ (lines text.toList) with
  | error e => simp
  | ok p => by_cases hnone : p.finish = [] <;> simp [hnone]

/-- The values in the sections are stable, and a value that is not finished has no indented line. -/
structure Progress.Clean (p : Progress) : Prop where
  stable : ∀ s ∈ p.sections, ∀ e ∈ s.entries, Stable e.value.toList
  unindented : ∀ name head, p.pending = some (name, head) →
    ∀ line ∈ splitAll '\n' head, Unindented line

theorem mem_pushLast {name value : String} {sections : List Section} {s : Section} {e : Entry}
    (hs : s ∈ pushLast name value sections) (he : e ∈ s.entries) :
    e = ⟨name, value⟩ ∨ ∃ t ∈ sections, e ∈ t.entries := by
  rcases List.eq_nil_or_concat' sections with rfl | ⟨front, last, rfl⟩
  · cases hs
  · rw [pushLast_append, List.mem_append, List.mem_singleton] at hs
    rcases hs with hs | rfl
    · exact Or.inr ⟨s, List.mem_append_left _ hs, he⟩
    · rcases List.mem_append.mp he with he | he
      · exact Or.inr ⟨last, List.mem_append_right _ List.mem_cons_self, he⟩
      · exact Or.inl (List.mem_singleton.mp he)

namespace Progress
variable {p q : Progress}

theorem Clean.settle (h : p.Clean) (name : List Char) {value : List Char}
    (hfront : ∀ line ∈ splitAll '\n' value, Unindented line)
    (hback : ∀ line ∈ (splitAll '\n' value).getLast?, Unpadded line) :
    (p.settle name value).Clean := by
  rcases p.settle_cases name value with ⟨head, rfl, hsettle⟩ | ⟨hlast, hsettle⟩
  · rw [hsettle]
    refine ⟨h.stable, ?_⟩
    rintro name' head' ⟨⟩ line hline
    have hbackslash : '\n' ∉ ['\\'] := by decide
    obtain ⟨pieces, last, hhead, hvalue⟩ := exists_splitAll_append hbackslash head
    rw [hvalue] at hfront
    rw [hhead, List.mem_append, List.mem_singleton] at hline
    rcases hline with hline | rfl
    · exact hfront line (List.mem_append_left _ hline)
    · exact Unindented.of_append (hfront _ (List.mem_append_right _ List.mem_cons_self))
  · rw [hsettle]
    refine ⟨?_, by simp⟩
    intro s hs e he
    rcases mem_pushLast hs he with rfl | ⟨t, ht, he⟩
    · rw [String.toList_ofList]
      exact ⟨hfront, hback, hlast⟩
    · exact h.stable t ht e he

theorem Clean.step {line : List Char} (h : p.Clean) (hline : '\n' ∉ line)
    (hstep : p.step line = .ok q) : q.Clean := by
  have htrim : '\n' ∉ trim line := not_mem_trim hline
  rcases step_eq_ok_iff.mp hstep with ⟨name, head, hpending, rfl⟩ | ⟨hpending, hstep⟩
  · -- the new line is the last one of the value
    have hsplit : splitAll '\n' (head ++ '\n' :: trim line) =
        splitAll '\n' head ++ [trim line] := by
      rw [splitAll_append_sep, splitAll_eq_singleton htrim]
    apply h.settle name
    · rw [hsplit]
      intro piece hpiece
      rcases List.mem_append.mp hpiece with hpiece | hpiece
      · exact h.unindented name head hpending piece hpiece
      · rw [List.mem_singleton.mp hpiece]
        exact unindented_trim line
    · rw [hsplit, List.getLast?_concat]
      rintro piece ⟨⟩
      exact unpadded_trim line
  · rcases hstep with ⟨-, rfl⟩ | ⟨name, -, rfl⟩ | ⟨name, value, hoption, -, rfl⟩
    · exact h
    · refine ⟨?_, by simp⟩
      intro s hs e he
      rcases List.mem_append.mp hs with hs | hs
      · exact h.stable s hs e he
      · rw [List.mem_singleton.mp hs] at he
        cases he
    · have hsingle : splitAll '\n' value = [value] :=
        splitAll_eq_singleton fun hmem => htrim (Line.value_subset hoption hmem)
      obtain ⟨a, b, -, -, -, rfl⟩ := Line.ofTrimmed_option hoption
      apply h.settle name
      · rw [hsingle]
        intro piece hpiece
        rw [List.mem_singleton.mp hpiece]
        exact unindented_trim b
      · rw [hsingle]
        rintro piece ⟨⟩
        exact unpadded_trim b

theorem Clean.runs {ls : List (List Char)} (h : p.Clean) (hlines : ∀ line ∈ ls, '\n' ∉ line)
    (hruns : p.Runs ls q) : q.Clean :=
  hruns.keeps hlines (fun hline h hstep => h.step hline hstep) h

theorem clean_start : Clean ⟨[], none⟩ := ⟨by simp, by simp⟩

end Progress
end UnitFiles.Format

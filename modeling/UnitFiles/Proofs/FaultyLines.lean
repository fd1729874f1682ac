import Mathlib.Order.Bounds.Basic
import UnitFiles.Proofs.Reading

/-! Where a text is malformed. Reading stops at the first line that it cannot take in, and what
comes behind that line does not count: the lines up to it are malformed at the same place, and fewer
lines are not malformed. -/
namespace UnitFiles.Text

/-- The first `n` lines of a text, with their newlines. -/
def firstLines : Nat → List Char → List Char
  | 0, _ => []
  | _ + 1, [] => []
  | n + 1, c :: rest => c :: firstLines (if c = '\n' then n else n + 1) rest

theorem lines_firstLines (n : Nat) (s : List Char) :
    lines (firstLines n s) = (lines s).take n := by
  induction s generalizing n with
  | nil => cases n <;> simp [firstLines, lines]
  | cons c rest ih =>
    cases n with
    | zero => simp [firstLines, lines]
    | succ n =>
      by_cases hc : c = '\n'
      · simp [firstLines, hc, lines, ih]
      · rw [firstLines, if_neg hc, lines_cons hc, lines_cons hc, ih]
        cases lines rest <;> simp

end UnitFiles.Text

namespace UnitFiles.Format
open Text

def beginning (n : Nat) (text : String) : String := .ofList (firstLines n text.toList)

/-- Some line of the text cannot be taken in. -/
def Malformed (path text : String) : Prop :=
  ∃ n fault, read path text = .error (.badLine path n fault)

section Lines
variable {p : Progress} {n k m : Nat} {fault : LineFault} {ls : List (List Char)}

theorem le_of_readLines_eq_error (h : readLines k p ls = .error (n, fault)) : k ≤ n := by
  induction ls generalizing k p with
  | nil => cases h
  | cons line rest ih =>
    rw [readLines] at h
    split at h
    · cases h
      exact Nat.le_refl _
    · exact Nat.le_of_succ_le (ih h)

/-- Cutting lines off leaves the failures in the lines before the cut, and makes no new one. -/
theorem readLines_take_eq_error_iff :
    readLines k p (ls.take m) = .error (n, fault) ↔
      n < k + m ∧ readLines k p ls = .error (n, fault) := by
  induction ls generalizing k p m with
  | nil => simp [readLines]
  | cons line rest ih =>
    cases m with
    | zero =>
      have hle := @le_of_readLines_eq_error p n k fault (line :: rest)
      simp only [List.take_zero, readLines, reduceCtorEq, false_iff]
      rintro ⟨hlt, h⟩
      exact absurd (hle h) (by omega)
    | succ m =>
      rw [List.take_succ_cons, readLines, readLines]
      cases p.step line with
      | error fault' => simp; omega
      | ok q => rw [ih, Nat.add_right_comm, Nat.add_assoc]

end Lines

section Texts
variable {path text : String} {n m : Nat} {fault : LineFault}

theorem read_eq_badLine_iff :
    read path text = .error (.badLine path n fault) ↔
      readLines 1 ⟨[], none⟩ (lines text.toList) = .error (n, fault) := by
  rw [read]
  cases readLines 1 ⟨[], none⟩ (lines text.toList) with
  | error e => simp [Prod.ext_iff]
  | ok p => by_cases hnone : p.finish = [] <;> simp [hnone]

theorem read_beginning_eq_badLine_iff :
    read path (beginning m text) = .error (.badLine path n fault) ↔
      n ≤ m ∧ read path text = .error (.badLine path n fault) := by
  rw [read_eq_badLine_iff, read_eq_badLine_iff, beginning, String.toList_ofList, lines_firstLines,
    readLines_take_eq_error_iff, Nat.add_comm, Nat.lt_succ_iff]

theorem read_cases (path text : String) :
    ((∃ d, read path text = .ok d) ∨ read path text = .error .noSections) ∨
      Malformed path text := by
  rw [Malformed, read]
  cases readLines 1 ⟨[], none⟩ (lines text.toList) with
  | error e => exact Or.inr ⟨e.1, e.2, rfl⟩
  | ok p => by_cases hnone : p.finish = [] <;> simp [hnone]

theorem not_malformed_iff :
    ¬Malformed path text ↔
      (∃ d, read path text = .ok d) ∨ read path text = .error .noSections := by
  constructor
  · exact (read_cases path text).resolve_right
  · rintro (⟨d, h⟩ | h) ⟨n, fault, hfault⟩ <;> rw [h] at hfault <;> cases hfault

theorem malformed_beginning_iff :
    Malformed path (beginning m text) ↔
      ∃ n ≤ m, ∃ fault, read path text = .error (.badLine path n fault) := by
  simp only [Malformed, read_beginning_eq_badLine_iff]
  constructor
  · rintro ⟨n, fault, hle, h⟩
    exact ⟨n, hle, fault, h⟩
  · rintro ⟨n, hle, fault, h⟩
    exact ⟨n, fault, hle, h⟩

theorem malformed_iff_exists_beginning :
    Malformed path text ↔ ∃ m, Malformed path (beginning m text) := by
  simp only [malformed_beginning_iff]
  constructor
  · rintro ⟨n, fault, h⟩
    exact ⟨n, n, Nat.le_refl n, fault, h⟩
  · rintro ⟨m, n, -, fault, h⟩
    exact ⟨n, fault, h⟩

theorem isLeast_malformed_iff :
    IsLeast {m | Malformed path (beginning m text)} n ↔
      ∃ fault, read path text = .error (.badLine path n fault) := by
  constructor
  · rintro ⟨hmem, hleast⟩
    obtain ⟨k, hle, fault, h⟩ := malformed_beginning_iff.mp hmem
    have hk : n ≤ k := hleast (malformed_beginning_iff.mpr ⟨k, Nat.le_refl k, fault, h⟩)
    exact ⟨fault, Nat.le_antisymm hle hk ▸ h⟩
  · rintro ⟨fault, h⟩
    refine ⟨malformed_beginning_iff.mpr ⟨n, Nat.le_refl n, fault, h⟩, ?_⟩
    intro m hm
    obtain ⟨k, hle, fault', h'⟩ := malformed_beginning_iff.mp hm
    rw [h] at h'
    cases h'
    exact hle

/-- Texts that begin with the same `n` lines have the same failure in them. -/
theorem read_badLine_congr {other : String}
    (h : (lines other.toList).take n = (lines text.toList).take n) :
    read path text = .error (.badLine path n fault) ↔
      read path other = .error (.badLine path n fault) := by
  have hbeginning : ∀ text : String, read path text = .error (.badLine path n fault) ↔
      readLines 1 ⟨[], none⟩ ((lines text.toList).take n) = .error (n, fault) := by
    intro text
    rw [read_eq_badLine_iff, readLines_take_eq_error_iff, and_iff_right (by omega)]
  rw [hbeginning, hbeginning, h]

end Texts

/-- A text is malformed at line `n` exactly if `n` is the least number of lines from its beginning
that are malformed on their own, and these have the same failure at the same line. Lines behind it
have no part in that, and no beginning of a text that is not malformed is malformed. -/
theorem read_badLine_iff_isLeast (path text : String) :
    (∀ n, (∃ fault, read path text = .error (.badLine path n fault)) ↔
      IsLeast {m | Malformed path (beginning m text)} n) ∧
    (∀ n fault, read path text = .error (.badLine path n fault) ↔
      read path (beginning n text) = .error (.badLine path n fault)) ∧
    (∀ n fault (other : String), (lines other.toList).take n = (lines text.toList).take n →
      (read path text = .error (.badLine path n fault) ↔
        read path other = .error (.badLine path n fault))) ∧
    (((∃ d, read path text = .ok d) ∨ read path text = .error .noSections) ↔
      ∀ m, ¬Malformed path (beginning m text)) := by
  refine ⟨fun n => isLeast_malformed_iff.symm, fun n fault => ?_,
    fun n fault other => read_badLine_congr, ?_⟩
  · rw [read_beginning_eq_badLine_iff, and_iff_right (Nat.le_refl n)]
  · rw [← not_malformed_iff, malformed_iff_exists_beginning, not_exists]

/-- The third line belongs to a value and is not faulty; the fourth one is. -/
def faultyText : String := "[A]\nKey= a \\\n[B\n[C\n[D]"

theorem read_badLine_iff_isLeast_faultyText :
    IsLeast {m | Malformed "a.unit" (beginning m faultyText)} 4 ∧
      (lines "[A]\nKey= a \\\n[B\n[C\nx".toList).take 4 = (lines faultyText.toList).take 4 ∧
      read "a.unit" "[A]\nKey= a \\\n[B\n[C\nx" =
        .error (.badLine "a.unit" 4 .unterminatedHeader) := by
  have hread : read "a.unit" faultyText = .error (.badLine "a.unit" 4 .unterminatedHeader) := by
    decide +kernel
  have hsame : (lines "[A]\nKey= a \\\n[B\n[C\nx".toList).take 4 =
      (lines faultyText.toList).take 4 := by decide +kernel
  obtain ⟨hleast, -, hcongr, -⟩ := read_badLine_iff_isLeast "a.unit" faultyText
  exact ⟨(hleast 4).mp ⟨_, hread⟩, hsame, (hcongr 4 _ _ hsame).mp hread⟩

end UnitFiles.Format

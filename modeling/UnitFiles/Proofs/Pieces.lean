import Mathlib.Data.List.DropRight
import UnitFiles.Text.Blank
import UnitFiles.Text.Lines

/-! Text taken apart: what is left of it without the blanks at its ends, its pieces between
separators, and its lines. -/
namespace UnitFiles.Text

/-- A line that does not start with a blank. -/
def Unindented (line : List Char) : Prop := ∀ c ∈ line.head?, isBlank c = false

/-- A line that does not end with a blank. -/
def Unpadded (line : List Char) : Prop := ∀ c ∈ line.getLast?, isBlank c = false

instance (line : List Char) : Decidable (Unindented line) :=
  decidable_of_iff (line.head?.all fun c => !isBlank c)
    (by cases h : line.head? <;> simp [Unindented, h])

instance (line : List Char) : Decidable (Unpadded line) :=
  decidable_of_iff (line.getLast?.all fun c => !isBlank c)
    (by cases h : line.getLast? <;> simp [Unpadded, h])

theorem Unindented.of_append {a b : List Char} (h : Unindented (a ++ b)) : Unindented a := by
  cases a with
  | nil => simp [Unindented]
  | cons c rest => simpa [Unindented] using h

section Trim
variable {s : List Char}

theorem trimStart_sublist (s : List Char) : (trimStart s).Sublist s := List.dropWhile_sublist _

theorem trimEnd_sublist (s : List Char) : (trimEnd s).Sublist s :=
  (List.rdropWhile_prefix isBlank (l := s)).sublist

theorem trim_sublist (s : List Char) : (trim s).Sublist s :=
  (trimEnd_sublist _).trans (trimStart_sublist s)

theorem not_mem_trim {c : Char} (h : c ∉ s) : c ∉ trim s :=
  fun hmem => h ((trim_sublist s).subset hmem)

theorem unindented_trimStart (s : List Char) : Unindented (trimStart s) := by
  intro c hc
  have h := List.head?_dropWhile_not isBlank s
  rw [trimStart] at hc
  rw [Option.mem_def.mp hc] at h
  exact h

theorem trimStart_eq_self (h : Unindented s) : trimStart s = s := by
  cases s with
  | nil => rfl
  | cons c rest =>
    have hc : isBlank c = false := h c rfl
    exact List.dropWhile_cons_of_neg (by simp [hc])

theorem unpadded_trimEnd (s : List Char) : Unpadded (trimEnd s) := by
  intro c hc
  have h := List.head?_dropWhile_not isBlank s.reverse
  rw [trimEnd, List.getLast?_reverse] at hc
  rw [Option.mem_def.mp hc] at h
  exact h

theorem trimEnd_eq_self (h : Unpadded s) : trimEnd s = s := by
  have hreverse : Unindented s.reverse := by
    intro c hc
    rw [List.head?_reverse] at hc
    exact h c hc
  rw [trimEnd, ← trimStart, trimStart_eq_self hreverse, List.reverse_reverse]

theorem trimEnd_append {b : List Char} (a : List Char) (h : trimEnd b ≠ []) :
    trimEnd (a ++ b) = a ++ trimEnd b := by
  have hkeep : (b.reverse.dropWhile isBlank).isEmpty = false := by
    simpa [trimEnd] using h
  rw [trimEnd, List.reverse_append, List.dropWhile_append, hkeep]
  simp [trimEnd]

theorem trimEnd_cons (c : Char) (s : List Char) :
    trimEnd (c :: s) = if isBlank c = true ∧ trimEnd s = [] then [] else c :: trimEnd s := by
  by_cases hs : trimEnd s = []
  · have hnil : s.reverse.dropWhile isBlank = [] := by simpa [trimEnd] using hs
    rw [trimEnd, List.reverse_cons, List.dropWhile_append, hnil, hs]
    cases hc : isBlank c <;> simp [hc]
  · rw [if_neg fun h => hs h.2]
    exact trimEnd_append [c] hs

theorem trimStart_trimEnd (s : List Char) : trimStart (trimEnd s) = trimEnd (trimStart s) := by
  induction s with
  | nil => rfl
  | cons c rest ih =>
    cases hc : isBlank c with
    | true =>
      have hskip : trimStart (c :: rest) = trimStart rest := List.dropWhile_cons_of_pos hc
      rw [hskip, ← ih, trimEnd_cons]
      split
      · rename_i h
        rw [h.2]
      · exact List.dropWhile_cons_of_pos hc
    | false =>
      have hkeep : ∀ more, trimStart (c :: more) = c :: more :=
        fun more => trimStart_eq_self (by simp [Unindented, hc])
      rw [hkeep, trimEnd_cons, if_neg (by simp [hc]), hkeep]

theorem trim_trimEnd (s : List Char) : trim (trimEnd s) = trim s := by
  rw [trim, trimStart_trimEnd, trimEnd_eq_self (unpadded_trimEnd _), trim]

theorem unindented_trim (s : List Char) : Unindented (trim s) := by
  rw [trim, ← trimStart_trimEnd]
  exact unindented_trimStart _

theorem unpadded_trim (s : List Char) : Unpadded (trim s) := unpadded_trimEnd _

theorem trim_eq_self (hfront : Unindented s) (hback : Unpadded s) : trim s = s := by
  rw [trim, trimStart_eq_self hfront, trimEnd_eq_self hback]

theorem trim_cons_blank {c : Char} (h : isBlank c = true) (s : List Char) :
    trim (c :: s) = trim s := by
  rw [trim, trimStart, List.dropWhile_cons_of_pos h]
  rfl

theorem trim_ne_concat (s : List Char) (c : Char) : trim s ≠ s ++ [c] := by
  intro h
  have := (trim_sublist s).length_le
  rw [h, List.length_append, List.length_singleton] at this
  omega

end Trim

theorem splitFirst_eq_some_iff {sep : Char} {s a b : List Char} :
    splitFirst sep s = some (a, b) ↔ s = a ++ sep :: b ∧ sep ∉ a := by
  induction s generalizing a b with
  | nil => simp [splitFirst]
  | cons c rest ih =>
    rw [splitFirst]
    by_cases hc : c = sep
    · rw [if_pos hc]
      constructor
      · rintro ⟨⟩
        simp [hc]
      · rintro ⟨hs, ha⟩
        cases a with
        | nil => simpa using (List.cons.inj hs).2
        | cons d a =>
          rw [List.cons_append] at hs
          exact absurd (List.mem_cons.mpr (Or.inl (hc ▸ (List.cons.inj hs).1))) ha
    · rw [if_neg hc]
      constructor
      · intro h
        obtain ⟨⟨a', b'⟩, hsplit, heq⟩ := Option.map_eq_some_iff.mp h
        obtain ⟨rfl, rfl⟩ := Prod.mk.inj heq
        obtain ⟨rfl, ha⟩ := ih.mp hsplit
        exact ⟨rfl, by simp [ha, Ne.symm hc]⟩
      · rintro ⟨hs, ha⟩
        cases a with
        | nil => exact absurd (List.cons.inj hs).1 hc
        | cons d a =>
          obtain ⟨rfl, hrest⟩ := List.cons.inj hs
          rw [ih.mpr ⟨hrest, fun hmem => ha (List.mem_cons_of_mem _ hmem)⟩]
          rfl

theorem dropStartBy?_eq_some_iff {f : Char → Char} {p s rest : List Char} :
    dropStartBy? f p s = some rest ↔ ∃ start, start.map f = p.map f ∧ s = start ++ rest := by
  induction p generalizing s with
  | nil => simp [dropStartBy?, eq_comm]
  | cons c p ih =>
    cases s with
    | nil => simp [dropStartBy?]
    | cons d s =>
      rw [dropStartBy?]
      split
      · rename_i hcd
        rw [ih]
        constructor
        · rintro ⟨start, hstart, rfl⟩
          exact ⟨d :: start, by simp [hstart, hcd], rfl⟩
        · rintro ⟨start, hstart, hs⟩
          cases start with
          | nil => simp at hstart
          | cons e start =>
            rw [List.cons_append, List.cons.injEq] at hs
            exact ⟨start, (List.cons.inj hstart).2, hs.2⟩
      · rename_i hcd
        simp only [reduceCtorEq, false_iff]
        rintro ⟨start, hstart, hs⟩
        cases start with
        | nil => simp at hstart
        | cons e start =>
          rw [List.cons_append, List.cons.injEq] at hs
          exact hcd (hs.1 ▸ (List.cons.inj hstart).1).symm

theorem dropStart?_eq_some_iff {p s rest : List Char} :
    dropStart? p s = some rest ↔ s = p ++ rest := by
  simp [dropStart?, dropStartBy?_eq_some_iff]

theorem dropEnd?_eq_some_iff {e s rest : List Char} :
    dropEnd? e s = some rest ↔ s = rest ++ e := by
  rw [dropEnd?, Option.map_eq_some_iff]
  constructor
  · rintro ⟨a, ha, rfl⟩
    rw [← List.reverse_inj, dropStart?_eq_some_iff.mp ha]
    simp
  · rintro rfl
    exact ⟨rest.reverse, dropStart?_eq_some_iff.mpr (by simp), by simp⟩

theorem dropEnd?_singleton_eq_none_iff {c : Char} {s : List Char} :
    dropEnd? [c] s = none ↔ s.getLast? ≠ some c := by
  rw [Option.eq_none_iff_forall_ne_some]
  constructor
  · intro h hlast
    obtain ⟨rest, rfl⟩ := List.getLast?_eq_some_iff.mp hlast
    exact h rest (dropEnd?_eq_some_iff.mpr rfl)
  · intro h rest hrest
    rw [dropEnd?_eq_some_iff.mp hrest] at h
    simp at h

section Split
variable {sep : Char}

theorem splitAll_ne_nil (s : List Char) : splitAll sep s ≠ [] := by
  cases s with
  | nil => simp [splitAll]
  | cons c rest =>
    rw [splitAll]
    split
    · simp
    · split <;> simp

theorem splitAll_cons_sep (s : List Char) : splitAll sep (sep :: s) = [] :: splitAll sep s := by
  simp [splitAll]

theorem exists_splitAll_cons {c : Char} (h : c ≠ sep) (s : List Char) :
    ∃ piece pieces, splitAll sep s = piece :: pieces ∧
      splitAll sep (c :: s) = (c :: piece) :: pieces := by
  cases hs : splitAll sep s with
  | nil => exact absurd hs (splitAll_ne_nil s)
  | cons piece pieces => exact ⟨piece, pieces, rfl, by rw [splitAll, if_neg h, hs]⟩

theorem splitAll_eq_singleton {s : List Char} (h : sep ∉ s) : splitAll sep s = [s] := by
  induction s with
  | nil => rfl
  | cons c rest ih =>
    obtain ⟨hc, hrest⟩ := List.ne_and_not_mem_of_not_mem_cons h
    rw [splitAll, if_neg (Ne.symm hc), ih hrest]

theorem splitAll_append_sep (a b : List Char) :
    splitAll sep (a ++ sep :: b) = splitAll sep a ++ splitAll sep b := by
  induction a with
  | nil => exact splitAll_cons_sep b
  | cons c a ih =>
    by_cases hc : c = sep
    · rw [hc, List.cons_append, splitAll_cons_sep, ih, splitAll_cons_sep, List.cons_append]
    · obtain ⟨piece, pieces, ha, hcons⟩ := exists_splitAll_cons hc a
      rw [List.cons_append, splitAll, if_neg hc, ih, ha, hcons]
      rfl

/-- What is put behind a text without separators lengthens the last piece. -/
theorem exists_splitAll_append {b : List Char} (hb : sep ∉ b) (a : List Char) :
    ∃ pieces last, splitAll sep a = pieces ++ [last] ∧
      splitAll sep (a ++ b) = pieces ++ [last ++ b] := by
  induction a with
  | nil => exact ⟨[], [], rfl, splitAll_eq_singleton hb⟩
  | cons c a ih =>
    obtain ⟨pieces, last, ha, hab⟩ := ih
    by_cases hc : c = sep
    · refine ⟨[] :: pieces, last, ?_, ?_⟩
      · rw [hc, splitAll_cons_sep, ha, List.cons_append]
      · rw [hc, List.cons_append, splitAll_cons_sep, hab, List.cons_append]
    · rw [List.cons_append, splitAll, if_neg hc, ha, splitAll, if_neg hc, hab]
      cases pieces with
      | nil => exact ⟨[], c :: last, rfl, rfl⟩
      | cons piece pieces => exact ⟨(c :: piece) :: pieces, last, rfl, rfl⟩

theorem not_mem_of_mem_splitAll {s piece : List Char} (h : piece ∈ splitAll sep s) :
    sep ∉ piece := by
  induction s generalizing piece with
  | nil => simp_all [splitAll]
  | cons c rest ih =>
    by_cases hc : c = sep
    · rw [hc, splitAll_cons_sep] at h
      rcases List.mem_cons.mp h with rfl | h
      · exact List.not_mem_nil
      · exact ih h
    · obtain ⟨first, pieces, hrest, hcons⟩ := exists_splitAll_cons hc rest
      rw [hcons] at h
      rw [hrest] at ih
      rcases List.mem_cons.mp h with rfl | h
      · exact List.not_mem_cons_of_ne_of_not_mem (Ne.symm hc) (ih List.mem_cons_self)
      · exact ih (List.mem_cons_of_mem _ h)

theorem join_cons {s : List Char} {pieces : List (List Char)} (h : pieces ≠ []) :
    join [sep] (s :: pieces) = s ++ sep :: join [sep] pieces := by
  cases pieces with
  | nil => contradiction
  | cons piece pieces => simp [join]

theorem join_splitAll (s : List Char) : join [sep] (splitAll sep s) = s := by
  induction s with
  | nil => rfl
  | cons c rest ih =>
    by_cases hc : c = sep
    · rw [hc, splitAll_cons_sep, join_cons (splitAll_ne_nil rest), ih, List.nil_append]
    · obtain ⟨piece, pieces, hrest, hcons⟩ := exists_splitAll_cons hc rest
      rw [hrest] at ih
      rw [hcons, ← ih]
      cases pieces with
      | nil => rfl
      | cons _ _ => simp [join]

end Split

theorem lines_cons {c : Char} (h : c ≠ '\n') (rest : List Char) :
    lines (c :: rest) =
      match lines rest with
      | [] => [[c]]
      | line :: more => (c :: line) :: more := by
  rw [lines.eq_def]
  split
  · rename_i heq
    cases heq
  · rename_i heq
    exact absurd (List.cons.inj heq).1 h
  · rename_i heq
    cases heq
    rfl

theorem newline_not_mem_lines {s : List Char} : ∀ line ∈ lines s, '\n' ∉ line := by
  induction s with
  | nil => simp [lines]
  | cons c rest ih =>
    by_cases hc : c = '\n'
    · rw [hc, lines, List.forall_mem_cons]
      exact ⟨List.not_mem_nil, ih⟩
    · rw [lines_cons hc]
      cases hrest : lines rest with
      | nil => simpa using Ne.symm hc
      | cons line more =>
        rw [hrest, List.forall_mem_cons] at ih
        rw [List.forall_mem_cons]
        exact ⟨List.not_mem_cons_of_ne_of_not_mem (Ne.symm hc) ih.1, ih.2⟩

theorem lines_append_newline {line : List Char} (h : '\n' ∉ line) (rest : List Char) :
    lines (line ++ '\n' :: rest) = line :: lines rest := by
  induction line with
  | nil => rfl
  | cons c line ih =>
    obtain ⟨hc, hline⟩ := List.ne_and_not_mem_of_not_mem_cons h
    rw [List.cons_append, lines_cons (Ne.symm hc), ih hline]

theorem lines_unlines {ls : List (List Char)} (h : ∀ line ∈ ls, '\n' ∉ line) :
    lines (unlines ls) = ls := by
  induction ls with
  | nil => rfl
  | cons line more ih =>
    obtain ⟨hline, hmore⟩ := List.forall_mem_cons.mp h
    rw [unlines, lines_append_newline hline, ih hmore]

theorem unlines_append (ls ms : List (List Char)) :
    unlines (ls ++ ms) = unlines ls ++ unlines ms := by
  induction ls with
  | nil => rfl
  | cons line more ih => simp [unlines, ih]

end UnitFiles.Text

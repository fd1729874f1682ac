import UnitFiles.Proofs.RoundTrip

/-! Documents that were read, written and read again. Names always fit into their lines again, and
every value is stable but one: where the text ends behind a backslash, the blanks in front of the
backslash are still at the end of the last value. -/
namespace UnitFiles.Format
open Text

theorem isSectionName_trim {s : List Char} (hne : trim s ≠ []) (hline : '\n' ∉ s) :
    IsSectionName (trim s) :=
  ⟨hne, trim_eq_self (unindented_trim s) (unpadded_trim s), not_mem_trim hline⟩

theorem head?_trim {s : List Char} (h : Unindented s) (hne : trim s ≠ []) :
    (trim s).head? = s.head? := by
  rw [trim, trimStart_eq_self h] at hne ⊢
  obtain ⟨rest, hrest⟩ : trimEnd s <+: s := List.rdropWhile_prefix isBlank s
  obtain ⟨c, front, hfront⟩ := List.exists_cons_of_ne_nil hne
  rw [hfront, List.cons_append] at hrest
  rw [hfront, ← hrest]
  rfl

namespace Line

theorem isSectionName_of_header {line name : List Char} (hline : '\n' ∉ line)
    (h : ofTrimmed line = .ok (.header name)) : IsSectionName name := by
  unfold ofTrimmed at h
  split at h
  · cases h
  · cases h
  · cases h
  · split at h
    · cases h
    · rename_i rest inner hinner
      split at h
      · cases h
      · rename_i hempty
        cases h
        rw [dropEnd?_eq_some_iff.mp hinner] at hline
        apply isSectionName_trim
        · simpa using hempty
        · exact fun hmem => hline (List.mem_cons_of_mem _ (List.mem_append_left _ hmem))
  · split at h
    · cases h
    · split at h <;> cases h

theorem isOptionName_of_option {line name value : List Char} (hline : '\n' ∉ line)
    (hfront : Unindented line) (h : ofTrimmed line = .ok (.option name value)) :
    IsOptionName name := by
  unfold ofTrimmed at h
  split at h
  · cases h
  · cases h
  · cases h
  · split at h
    · cases h
    · split at h <;> cases h
  · rename_i hhash hsemicolon hbracket
    split at h
    · cases h
    · rename_i a b hsplit
      obtain ⟨rfl, hequals⟩ := splitFirst_eq_some_iff.mp hsplit
      split at h
      · cases h
      · rename_i hempty
        cases h
        have hne : trim a ≠ [] := by simpa using hempty
        have hhead : ∀ c, (trim a).head? = some c → ∃ rest, a ++ '=' :: b = c :: rest := by
          intro c hc
          rw [head?_trim (Unindented.of_append hfront) hne, List.head?_eq_some_iff] at hc
          obtain ⟨rest, rfl⟩ := hc
          exact ⟨_, rfl⟩
        refine ⟨isSectionName_trim hne fun hmem => hline (List.mem_append_left _ hmem),
          not_mem_trim hequals, ?_, ?_, ?_⟩
        · exact fun hc => (hhead _ hc).elim hbracket
        · exact fun hc => (hhead _ hc).elim hhash
        · exact fun hc => (hhead _ hc).elim hsemicolon

end Line

/-- All names fit into their lines, that of a value that is not finished too. -/
structure Progress.Named (p : Progress) : Prop where
  sections : ∀ s ∈ p.sections, WellNamed s
  pending : ∀ name head, p.pending = some (name, head) → IsOptionName name

theorem WellNamed.push {s : Section} (h : WellNamed s) {name : List Char}
    (hname : IsOptionName name) (value : String) : WellNamed (s.push (.ofList name) value) := by
  refine ⟨h.header, ?_⟩
  intro e he
  rcases List.mem_append.mp he with he | he
  · exact h.options e he
  · rw [List.mem_singleton.mp he, String.toList_ofList]
    exact hname

theorem wellNamed_pushLast {name : List Char} (hname : IsOptionName name) (value : String)
    {sections : List Section} (h : ∀ s ∈ sections, WellNamed s) :
    ∀ s ∈ pushLast (.ofList name) value sections, WellNamed s := by
  rcases List.eq_nil_or_concat' sections with rfl | ⟨front, last, rfl⟩
  · exact h
  · rw [List.forall_mem_append, List.forall_mem_singleton] at h
    rw [pushLast_append, List.forall_mem_append, List.forall_mem_singleton]
    exact ⟨h.1, h.2.push hname value⟩

namespace Progress
variable {p q : Progress}

theorem Named.settle (h : p.Named) {name : List Char} (hname : IsOptionName name)
    (value : List Char) : (p.settle name value).Named := by
  rcases p.settle_cases name value with ⟨head, -, hsettle⟩ | ⟨-, hsettle⟩
  · rw [hsettle]
    refine ⟨h.sections, ?_⟩
    rintro name' head' ⟨⟩
    exact hname
  · rw [hsettle]
    exact ⟨wellNamed_pushLast hname _ h.sections, by simp⟩

theorem Named.step {line : List Char} (h : p.Named) (hline : '\n' ∉ line)
    (hstep : p.step line = .ok q) : q.Named := by
  have htrim : '\n' ∉ trim line := not_mem_trim hline
  rcases step_eq_ok_iff.mp hstep with ⟨name, head, hpending, rfl⟩ | ⟨hpending, hstep⟩
  · exact h.settle (h.pending name head hpending) _
  · rcases hstep with ⟨-, rfl⟩ | ⟨name, hheader, rfl⟩ | ⟨name, value, hoption, -, rfl⟩
    · exact h
    · refine ⟨?_, by simp⟩
      rw [List.forall_mem_append, List.forall_mem_singleton]
      refine ⟨h.sections, ?_, by simp⟩
      rw [String.toList_ofList]
      exact Line.isSectionName_of_header htrim hheader
    · exact h.settle (Line.isOptionName_of_option htrim (unindented_trim line) hoption) value

/-- Whatever lines are read, only names that fit into their lines get into the sections. -/
theorem Named.runs {ls : List (List Char)} (h : p.Named) (hlines : ∀ line ∈ ls, '\n' ∉ line)
    (hruns : p.Runs ls q) : q.Named :=
  hruns.keeps hlines (fun hline h hstep => h.step hline hstep) h

theorem named_start : Named ⟨[], none⟩ := ⟨by simp, by simp⟩

theorem Named.finish (h : p.Named) : ∀ s ∈ p.finish, WellNamed s := by
  obtain ⟨sections, _ | ⟨name, head⟩⟩ := p
  · exact h.sections
  · exact wellNamed_pushLast (h.pending name head rfl) _ h.sections

end Progress

theorem read_eq_ok_shape {path text : String} {d : Document} (h : read path text = .ok d) :
    ∃ p : Progress, p.Clean ∧ p.Named ∧ p.finish ≠ [] ∧ d = ⟨path, p.finish⟩ := by
  obtain ⟨p, hruns, hne, rfl⟩ := read_eq_ok_iff.mp h
  exact ⟨p, Progress.clean_start.runs newline_not_mem_lines hruns,
    Progress.named_start.runs newline_not_mem_lines hruns, hne, rfl⟩

theorem reread_stable {sections : List Section}
    (stable : ∀ s ∈ sections, ∀ e ∈ s.entries, Stable e.value.toList) :
    reread sections = sections := by
  rw [reread, Progress.foldl_takeSection_closed fun s hs e he => (stable s hs e he).not_open,
    List.map_congr_left fun s hs => tidied_eq_self (stable s hs), List.map_id']
  rfl

/-- The last value of a text: if it is open, the end of the text closes it. -/
def lastTidied (value : List Char) : List Char :=
  (dropEnd? ['\\'] (tidied value)).getD (tidied value)

theorem finish_settle (front : List Section) (s : Section) (name value : List Char) :
    (Progress.settle ⟨front ++ [s], none⟩ name value).finish =
      front ++ [s.push (.ofList name) (.ofList ((dropEnd? ['\\'] value).getD value))] := by
  rw [Progress.settle]
  cases dropEnd? ['\\'] value <;> exact pushLast_append _ _ front s

theorem reread_push {front : List Section} {s : Section} (name value : String)
    (hfront : ∀ t ∈ front, ∀ e ∈ t.entries, Stable e.value.toList)
    (hs : ∀ e ∈ s.entries, Stable e.value.toList) :
    reread (front ++ [s.push name value]) =
      front ++ [s.push name (.ofList (lastTidied value.toList))] := by
  have hclosed := Progress.foldl_takeSection_closed
    (fun t ht e he => (hfront t ht e he).not_open) []
  rw [List.map_congr_left fun t ht => tidied_eq_self (hfront t ht), List.map_id'] at hclosed
  have hbefore : s.entries.foldl Progress.take ⟨front ++ [⟨s.name, []⟩], none⟩ =
      ⟨front ++ [s], none⟩ := by
    rw [Progress.foldl_take_closed fun e he => (hs e he).not_open]
    exact congrArg (fun t => (⟨front ++ [t], none⟩ : Progress)) (tidied_eq_self hs)
  have hlast : Progress.takeSection ⟨front, none⟩ (s.push name value) =
      Progress.settle ⟨front ++ [s], none⟩ name.toList (tidied value.toList) := by
    calc Progress.takeSection ⟨front, none⟩ (s.push name value)
        = (s.entries ++ [(⟨name, value⟩ : Entry)]).foldl Progress.take
            ⟨front ++ [⟨s.name, []⟩], none⟩ := rfl
      _ = Progress.take ⟨front ++ [s], none⟩ ⟨name, value⟩ := by
          rw [List.foldl_append, hbefore]
          rfl
      _ = Progress.settle ⟨front ++ [s], none⟩ name.toList (tidied value.toList) := rfl
  rw [reread, List.foldl_append, hclosed, List.foldl_cons, List.foldl_nil, List.nil_append, hlast,
    finish_settle, String.ofList_toList]
  rfl

theorem lastTidied_eq_self_iff {value : List Char}
    (hfront : ∀ line ∈ splitAll '\n' value, Unindented line)
    (hfinished : value.getLast? ≠ some '\\') :
    lastTidied value = value ↔ Unpadded (lastLine value) := by
  have htidied := tidied_of_unindented hfront
  constructor
  · intro h
    cases hdrop : dropEnd? ['\\'] (tidied value) with
    | none =>
      rw [lastTidied, hdrop, Option.getD_none, htidied] at h
      conv_rhs at h => rw [eq_unlines_lastLine value]
      rw [← List.append_cancel_left h]
      exact unpadded_trim _
    | some head =>
      -- the value would be longer after the blanks are gone
      have hvalue := dropEnd?_eq_some_iff.mp hdrop
      rw [lastTidied, hdrop, Option.getD_some] at h
      have hlength : (tidied value).length ≤ value.length := by
        conv_rhs => rw [eq_unlines_lastLine value]
        rw [htidied, List.length_append, List.length_append]
        exact Nat.add_le_add_left (trim_sublist _).length_le _
      rw [hvalue, h, List.length_append, List.length_singleton] at hlength
      omega
  · intro h
    have hstable : Stable value := by
      refine ⟨hfront, ?_, hfinished⟩
      rw [splitAll_eq_concat, List.getLast?_concat]
      rintro line ⟨⟩
      exact h
    rw [lastTidied, hstable.tidied, dropEnd?_singleton_eq_none_iff.mpr hfinished]
    rfl

/-- Only the last value can change, and it changes if it is padded. -/
theorem reread_push_eq_self_iff {front : List Section} {s : Section} (name value : String)
    (hfront : ∀ t ∈ front, ∀ e ∈ t.entries, Stable e.value.toList)
    (hs : ∀ e ∈ s.entries, Stable e.value.toList)
    (hlines : ∀ line ∈ splitAll '\n' value.toList, Unindented line)
    (hfinished : value.toList.getLast? ≠ some '\\') :
    reread (front ++ [s.push name value]) = front ++ [s.push name value] ↔
      Unpadded (lastLine value.toList) := by
  rw [reread_push name value hfront hs, ← lastTidied_eq_self_iff hlines hfinished]
  simp [Section.push, ← String.toList_inj]

/-- What was read and written is read as the same again exactly when no blanks are at the end of the
last value. Only a text that ends behind a backslash gives such a value. -/
theorem read_rewrite_iff {path text rewritten : String} {d : Document}
    (hread : read path text = .ok d) (hwrite : write d.sections = .ok rewritten) :
    read path rewritten = .ok d ↔
      ∀ s ∈ d.sections.getLast?, ∀ e ∈ s.entries.getLast?, Unpadded (lastLine e.value.toList) := by
  obtain ⟨⟨sections, pending⟩, hclean, hnamed, hne, rfl⟩ := read_eq_ok_shape hread
  cases pending with
  | none =>
    have hreread : reread sections = sections := reread_stable hclean.stable
    have hagain := read_written path hnamed.sections hwrite (hreread.symm ▸ hne)
    refine iff_of_true (hreread ▸ hagain) ?_
    intro s hs e he
    have hstable := hclean.stable s (List.mem_of_getLast? hs) e (List.mem_of_getLast? he)
    exact hstable.unpadded _ (List.getLast?_eq_some_getLast (splitAll_ne_nil _))
  | some pair =>
    obtain ⟨name, head⟩ := pair
    obtain ⟨front, s, rfl⟩ : ∃ front s, sections = front ++ [s] := by
      refine (List.eq_nil_or_concat' sections).resolve_left ?_
      rintro rfl
      exact hne rfl
    have hstable := hclean.stable
    rw [List.forall_mem_append, List.forall_mem_singleton] at hstable
    have hwellNamed := hnamed.finish
    have hpush : Progress.finish ⟨front ++ [s], some (name, head)⟩ =
        front ++ [s.push (.ofList name) (.ofList head)] := pushLast_append _ _ front s
    rw [hpush] at hwellNamed hwrite ⊢
    have hlines : ∀ line ∈ splitAll '\n' (String.ofList head).toList, Unindented line := by
      rw [String.toList_ofList]
      exact hclean.unindented name head rfl
    have hfinished := (write_eq_ok_iff.mp hwrite).1 (s.push (.ofList name) (.ofList head)) (by simp)
      ⟨.ofList name, .ofList head⟩ (by simp [Section.push])
    rw [read_written path hwellNamed hwrite (by simp [reread_push _ _ hstable.1 hstable.2]),
      Except.ok.injEq, Document.mk.injEq, and_iff_right rfl,
      reread_push_eq_self_iff _ _ hstable.1 hstable.2 hlines hfinished]
    simp [Section.push]

/-- The backslash goes on with the value, but no line is left for that. -/
theorem read_rewrite_cut_off :
    read "a.unit" "[Test]\nKey= value \\" = .ok ⟨"a.unit", [⟨"Test", [⟨"Key", "value "⟩]⟩]⟩ ∧
      write [⟨"Test", [⟨"Key", "value "⟩]⟩] = .ok "[Test]\nKey= value \n" ∧
      read "a.unit" "[Test]\nKey= value \n" = .ok ⟨"a.unit", [⟨"Test", [⟨"Key", "value"⟩]⟩]⟩ := by
  decide +kernel

theorem read_rewrite_tight :
    read "a.unit" "[Test]\nKey= value\\" = .ok ⟨"a.unit", [⟨"Test", [⟨"Key", "value"⟩]⟩]⟩ ∧
      write [⟨"Test", [⟨"Key", "value"⟩]⟩] = .ok "[Test]\nKey= value\n" ∧
      read "a.unit" "[Test]\nKey= value\n" = .ok ⟨"a.unit", [⟨"Test", [⟨"Key", "value"⟩]⟩]⟩ := by
  have hread : read "a.unit" "[Test]\nKey= value\\" =
      .ok ⟨"a.unit", [⟨"Test", [⟨"Key", "value"⟩]⟩]⟩ := by decide +kernel
  have hwrite : write [⟨"Test", [⟨"Key", "value"⟩]⟩] = .ok "[Test]\nKey= value\n" := by
    decide +kernel
  exact ⟨hread, hwrite, (read_rewrite_iff hread hwrite).mpr (by decide +kernel)⟩

end UnitFiles.Format

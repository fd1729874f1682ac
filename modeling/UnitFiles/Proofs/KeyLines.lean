import Mathlib.Order.Bounds.Basic
import UnitFiles.Proofs.SpecRegistry
import UnitFiles.Proofs.SpecTables

/-! The line reported for an unknown key of a spec file. The search stops at the first line that
assigns the key behind the headers of its table, as far as it makes them out. A header that it does
not make out goes uncounted, and then the keys of a table are looked for in another one. -/
namespace UnitFiles
open Text Number

namespace Toml

variable {rows done : List Row} {name key : String} {i n : Nat} {s : List Char}

section Search

/-- Row number `n` stops the search for a key in table number `i` of a name. -/
def Hit (rows : List Row) (name key : List Char) (i n : Nat) : Prop :=
  RowAt (fun before row => row.taken? = none ∧ assigns key (trim row.line) = true ∧
    tableBehind (before.filterMap Row.taken?) = some (.ofList name, i)) rows n

/-- A line number, or zero for none at all. -/
def IsFirst (lines : Set Nat) (n : Nat) : Prop := n = 0 ∧ lines = ∅ ∨ IsLeast lines n

section Scan
variable {p : List Row → Row → Prop} {row : Row}

/-- A search that has found nothing in front of a row may stop there. -/
theorem isFirst_here (hdone : ∀ m ≤ done.length, ¬RowAt p (done ++ row :: rows) m)
    (hhere : p done row) : IsFirst {m | RowAt p (done ++ row :: rows) m} (done.length + 1) :=
  Or.inr ⟨rowAt_here_iff.mpr hhere, fun m hm => Nat.lt_of_not_le fun hle => hdone m hle hm⟩

/-- A search that goes on behind a row has still found nothing. -/
theorem not_rowAt_concat (hdone : ∀ m ≤ done.length, ¬RowAt p (done ++ row :: rows) m)
    (hhere : ¬p done row) :
    ∀ m ≤ (done ++ [row]).length, ¬RowAt p (done ++ [row] ++ rows) m := by
  intro m hm
  rw [List.length_append, List.length_singleton] at hm
  rw [← List.append_cons]
  rcases Nat.le_succ_iff.mp hm with hm | rfl
  · exact hdone m hm
  · rwa [rowAt_here_iff]

end Scan

/-- The search keeps the number of the tables of the name so far, and whether the last header was
that of the table it looks for. -/
theorem lineIn_isFirst {name key : List Char}
    (hdone : ∀ m ≤ done.length, ¬Hit (done ++ rows) name key i m) :
    IsFirst {m | Hit (done ++ rows) name key i m}
      (lineIn name key i ((done.filterMap Row.taken?).count (.ofList name))
        (decide (tableBehind (done.filterMap Row.taken?) = some (.ofList name, i)))
        (done.length + 1) (rows.map Row.line)) := by
  induction rows generalizing done with
  | nil =>
    refine Or.inl ⟨rfl, Set.eq_empty_of_forall_notMem fun m hm => hdone m ?_ hm⟩
    rw [List.append_nil] at hm
    exact hm.bounds.2
  | cons row rows ih =>
    rw [List.map_cons, lineIn]
    cases htaken : headerName? (trim row.line) with
    | some header =>
      have hsome : row.taken? = some (.ofList header) := by rw [Row.taken?, htaken, Option.map_some]
      have hnames : (done ++ [row]).filterMap Row.taken? =
          done.filterMap Row.taken? ++ [.ofList header] := by simp [hsome]
      specialize ih (not_rowAt_concat hdone (by simp [hsome]))
      rw [hnames, tableBehind_concat, List.count_append, List.length_append,
        ← List.append_cons] at ih
      dsimp only
      by_cases hheader : header = name
      · rw [if_pos hheader]
        simpa [hheader, beq_eq_decide] using ih
      · rw [if_neg hheader]
        simpa [hheader, String.ofList_inj] using ih
    | none =>
      have hnone : row.taken? = none := by rw [Row.taken?, htaken, Option.map_none]
      have hnames : (done ++ [row]).filterMap Row.taken? = done.filterMap Row.taken? := by
        simp [hnone]
      dsimp only
      split
      · rename_i hhit
        rw [Bool.and_eq_true, decide_eq_true_eq] at hhit
        exact isFirst_here hdone ⟨hnone, hhit.2, hhit.1⟩
      · rename_i hhit
        rw [Bool.and_eq_true, decide_eq_true_eq] at hhit
        specialize ih (not_rowAt_concat hdone fun h => hhit ⟨h.2.2, h.2.1⟩)
        rwa [hnames, List.length_append, ← List.append_cons] at ih

end Search

section Keys
variable {text : String}

theorem splitAll_numbered (name : String) (i : Nat) (key : String) :
    splitAll '.' (name ++ "." ++ toString i ++ "." ++ key).toList =
      splitAll '.' name.toList ++ Nat.toDigits 10 i :: splitAll '.' key.toList := by
  have hdigits : '.' ∉ Nat.toDigits 10 i := fun hmem =>
    absurd (isDigit_of_mem_toDigits hmem) (by decide)
  have hchars : (name ++ "." ++ toString i ++ "." ++ key).toList =
      name.toList ++ '.' :: (Nat.toDigits 10 i ++ '.' :: key.toList) := by
    simp [Nat.toList_repr]
  rw [hchars, splitAll_append_sep, splitAll_append_sep, splitAll_eq_singleton hdigits,
    List.singleton_append]

theorem eq_of_splitAll {a b : String} (h : splitAll '.' a.toList = [b.toList]) : a = b := by
  have hjoin : join ['.'] (splitAll '.' a.toList) = a.toList := join_splitAll a.toList
  rw [h] at hjoin
  exact String.toList_inj.mp hjoin.symm

/-- A key can be taken apart in only one way if there are no other dots. -/
theorem numbered_inj {name' key' : String} {i' : Nat} (hname : '.' ∉ name.toList)
    (hkey : '.' ∉ key.toList)
    (h : name' ++ "." ++ toString i' ++ "." ++ key' = name ++ "." ++ toString i ++ "." ++ key) :
    name' = name ∧ i' = i ∧ key' = key := by
  have hpieces := congrArg (fun k => splitAll '.' k.toList) h
  simp only [splitAll_numbered] at hpieces
  rw [splitAll_eq_singleton hname, splitAll_eq_singleton hkey] at hpieces
  have hne : ∀ s, splitAll '.' s ≠ [] := splitAll_ne_nil
  obtain ⟨piece, pieces, hfront⟩ := List.exists_cons_of_ne_nil (hne name'.toList)
  obtain ⟨last, more, hback⟩ := List.exists_cons_of_ne_nil (hne key'.toList)
  rw [hfront, hback] at hpieces
  have hlength : pieces.length + more.length = 0 := by
    have := congrArg List.length hpieces
    simp only [List.length_append, List.length_cons, List.length_nil] at this
    omega
  obtain ⟨rfl, rfl⟩ : pieces = [] ∧ more = [] := by simpa using hlength
  simp only [List.cons_append, List.nil_append, List.cons.injEq, and_true] at hpieces
  obtain ⟨rfl, hdigits, rfl⟩ := hpieces
  refine ⟨eq_of_splitAll hfront, ?_, eq_of_splitAll hback⟩
  rw [← Nat.ofDigitChars_ten_toDigits (n := i'), hdigits, Nat.ofDigitChars_ten_toDigits]

theorem lineOf_numbered (text : String) (hname : '.' ∉ name.toList) (hkey : '.' ∉ key.toList) :
    lineOf text (name ++ "." ++ toString i ++ "." ++ key) =
      lineIn name.toList key.toList i 0 false 1 (lines text.toList) := by
  have hdigits :
      ((Nat.toDigits 10 i).isEmpty || !(Nat.toDigits 10 i).all Char.isDigit) = false := by
    simpa [Nat.toDigits_ne_nil] using fun c => isDigit_of_mem_toDigits
  rw [lineOf, splitAll_numbered, splitAll_eq_singleton hname, splitAll_eq_singleton hkey]
  simp only [List.singleton_append, hdigits, Bool.false_eq_true, if_false,
    Nat.ofDigitChars_ten_toDigits]

theorem Rows.lineOf_isFirst (h : Rows text.toList rows) (hname : '.' ∉ name.toList)
    (hkey : '.' ∉ key.toList) : IsFirst {n | Hit rows name.toList key.toList i n}
      (lineOf text (name ++ "." ++ toString i ++ "." ++ key)) := by
  rw [lineOf_numbered text hname hkey, h.lines_eq]
  refine @lineIn_isFirst rows [] i name.toList key.toList fun m hm hhit => ?_
  exact absurd hhit.bounds.1 (Nat.not_lt.mpr hm)

end Keys

section Places

theorem mem_of_tableBehind {names : List String} (h : tableBehind names = some (name, i)) :
    name ∈ names := by
  obtain ⟨last, hlast, hpair⟩ := Option.map_eq_some_iff.mp h
  exact (Prod.mk.inj hpair).1 ▸ List.mem_of_getLast? hlast

theorem Assigned.mem_heading {heading : Row → Option String}
    (h : Assigned heading rows name i key n) : name ∈ rows.filterMap heading := by
  obtain ⟨before, row, after, rfl, -, -, htable⟩ := h
  rw [List.filterMap_append]
  exact List.mem_append_left _ (mem_of_tableBehind htable)

theorem assigned_iff_of_agree {heading other : Row → Option String}
    (h : ∀ row ∈ rows, heading row = other row) :
    Assigned heading rows name i key n ↔ Assigned other rows name i key n := by
  refine rowAt_congr fun before row after hrows => ?_
  have hbefore : before.filterMap heading = before.filterMap other :=
    List.filterMap_congr fun row hrow => h row (hrows ▸ List.mem_append_left _ hrow)
  rw [hbefore]

/-- Where the search finds a key, the place is right exactly if the headers in front of it that are
made out lead to the same table as those that are there. -/
theorem Assigned.called_iff (h : Assigned Row.taken? rows name i key n) :
    Assigned Row.called? rows name i key n ↔
      ∀ before row after, rows = before ++ row :: after → n = before.length + 1 →
        tableBehind (before.filterMap Row.taken?) = tableBehind (before.filterMap Row.called?) := by
  constructor
  · rintro hcalled before row after rfl rfl
    rw [(rowAt_here_iff.mp h).2, (rowAt_here_iff.mp hcalled).2]
  · intro hagree
    obtain ⟨before, row, after, hrows, hn, hrow, htable⟩ := h
    exact ⟨before, row, after, hrows, hn, hrow,
      (hagree before row after hrows hn).symm.trans htable⟩

theorem Rows.hit_iff (h : Rows s rows) (hbare : ∀ c ∈ key.toList, isBareKeyChar c = true)
    (hne : key.toList ≠ []) :
    Hit rows name.toList key.toList i n ↔ Assigned Row.taken? rows name i key n := by
  refine rowAt_congr fun before row after hrows => ?_
  obtain ⟨t, ht⟩ := h.exists_readsRow (hrows ▸ List.mem_append_right before List.mem_cons_self)
  rw [ht.assigns_iff hbare hne, String.ofList_toList, String.ofList_toList]
  constructor
  · exact fun ⟨_, hrow, htable⟩ => ⟨hrow, htable⟩
  · rintro ⟨⟨line, v, rfl⟩, htable⟩
    exact ⟨ht.taken?_entry, ⟨line, v, rfl⟩, htable⟩

theorem Rows.mem_namesCalled (h : Rows s rows) (hbare : ∀ c ∈ name.toList, isBareKeyChar c = true)
    (hne : name.toList ≠ []) (hmem : name ∈ rows.filterMap Row.taken?) :
    name ∈ namesCalled rows := by
  obtain ⟨row, hrow, htaken⟩ := List.mem_filterMap.mp hmem
  obtain ⟨t, ht⟩ := h.exists_readsRow hrow
  refine List.mem_filterMap.mpr ⟨row, hrow, ?_⟩
  cases row with
  | empty line =>
    rw [ht.taken?_empty] at htaken
    cases htaken
  | header line called =>
    rw [← String.ofList_toList (s := name), taken?_eq_some_iff hbare hne] at htaken
    rw [ht.called_of_bracketed hbare hne htaken, String.ofList_toList, Row.called?]
  | entry line key v =>
    rw [ht.taken?_entry] at htaken
    cases htaken

theorem Rows.taken?_eq_called? (h : Rows s rows)
    (hheaders : ∀ line called, .header line called ∈ rows →
      (Row.header line called).taken? = some called) : ∀ row ∈ rows, row.taken? = row.called? := by
  intro row hrow
  obtain ⟨t, ht⟩ := h.exists_readsRow hrow
  cases row with
  | empty line => exact ht.taken?_empty
  | header line called => exact hheaders line called hrow
  | entry line key v => exact ht.taken?_entry

theorem Assigned.bare_key {heading : Row → Option String} (h : Rows s rows)
    (hassigned : Assigned heading rows name i key n) :
    (∀ c ∈ key.toList, isBareKeyChar c = true) ∧ key.toList ≠ [] := by
  obtain ⟨before, _, after, rfl, -, ⟨line, v, rfl⟩, -⟩ := hassigned
  obtain ⟨t, ht⟩ := h.exists_readsRow (List.mem_append_right before List.mem_cons_self)
  exact ht.bare_key

/-- The name of an array that an entry assigns is not taken for that of a header. -/
theorem Rows.not_mem_taken (h : Rows s rows) {line : List Char} {v : Toml}
    (hmissing : name ∉ namesCalled rows) (hrow : .entry line name v ∈ rows) :
    name ∉ rows.filterMap Row.taken? := by
  obtain ⟨t, ht⟩ := h.exists_readsRow hrow
  obtain ⟨hbare, hne⟩ := ht.bare_key
  exact fun hmem => hmissing (h.mem_namesCalled hbare hne hmem)

theorem not_hit (h : name ∉ rows.filterMap Row.taken?) (key : List Char) (i n : Nat) :
    ¬Hit rows name.toList key i n := by
  rintro ⟨before, row, after, rfl, -, -, -, htable⟩
  rw [String.ofList_toList] at htable
  rw [List.filterMap_append] at h
  exact h (List.mem_append_left _ (mem_of_tableBehind htable))

theorem Rows.line_isFirst {text : String} (h : Rows text.toList rows) (hname : '.' ∉ name.toList)
    (hkey : '.' ∉ key.toList)
    (hplace : (∃ n, Assigned Row.called? rows name i key n) ∨
      name ∉ namesCalled rows ∧ ∃ line v, .entry line name v ∈ rows) :
    IsFirst {n | Assigned Row.taken? rows name i key n}
      (lineOf text (name ++ "." ++ toString i ++ "." ++ key)) := by
  have hfirst := h.lineOf_isFirst (i := i) hname hkey
  have hset : {n | Assigned Row.taken? rows name i key n} =
      {n | Hit rows name.toList key.toList i n} := by
    ext n
    rcases hplace with ⟨m, hassigned⟩ | ⟨hmissing, line, v, hrow⟩
    · obtain ⟨hbare, hne⟩ := hassigned.bare_key h
      exact (h.hit_iff hbare hne).symm
    · have htaken := h.not_mem_taken hmissing hrow
      exact iff_of_false (fun hassigned => htaken hassigned.mem_heading)
        (not_hit htaken key.toList i n)
  rwa [hset]

end Places

end Toml

namespace FileSpec
open Toml

variable {path text name key : String} {rows : List Row} {keys : List UnknownKey} {k : UnknownKey}
  {i : Nat}

theorem ofToml_eq_unknownKeys (h : ofToml path text = .error (.unknownKeys keys)) :
    ∃ fields, read? text = some fields ∧
      keys = (stray fields).map fun key => ⟨key, path, lineOf text key⟩ := by
  rw [ofToml] at h
  split at h
  · cases h
  · rename_i fields hread
    refine ⟨fields, hread, ?_⟩
    split at h
    · cases h
    · split at h
      · rw [normalized_eq] at h
        split at h <;> cases h
      · cases h
        rfl

/-- The line reported for an unknown key is the first one that assigns it in its table, as far as
the search makes out headers, and zero if there is none. It is that of the key, or zero, exactly if
the headers in front of it that are made out lead to the same table as all of them do. If all
headers of the text are made out, it is the only line that assigns the key in its table. A key of an
array that an entry assigns has no line. -/
theorem unknownKey_line (hrows : Rows text.toList rows)
    (hfail : ofToml path text = .error (.unknownKeys keys)) (hk : k ∈ keys)
    (hkey : k.key = name ++ "." ++ toString i ++ "." ++ key) (hname : '.' ∉ name.toList)
    (hdot : '.' ∉ key.toList) :
    IsFirst {n | Assigned Row.taken? rows name i key n} k.line ∧
    ((k.line = 0 ∨ Assigned Row.called? rows name i key k.line) ↔
      ∀ before row after, rows = before ++ row :: after → k.line = before.length + 1 →
        tableBehind (before.filterMap Row.taken?) = tableBehind (before.filterMap Row.called?)) ∧
    ((∀ line called, .header line called ∈ rows →
        (Row.header line called).taken? = some called) →
      name ∈ namesCalled rows → ∀ n, Assigned Row.called? rows name i key n ↔ n = k.line) ∧
    (name ∉ namesCalled rows → k.line = 0) := by
  obtain ⟨fields, hread, rfl⟩ := ofToml_eq_unknownKeys hfail
  obtain ⟨here, hholds⟩ := hrows.holds hread
  obtain ⟨unknown, hunknown, rfl⟩ := List.mem_map.mp hk
  dsimp only at hkey ⊢
  obtain ⟨name', i', key', hsame, hplace⟩ := hholds.unknown hunknown
  obtain ⟨rfl, rfl, rfl⟩ := numbered_inj hname hdot (hsame.symm.trans hkey)
  rw [hkey]
  have hfirst := hrows.line_isFirst hname hdot hplace
  generalize lineOf text (name' ++ "." ++ toString i' ++ "." ++ key') = n at hfirst ⊢
  refine ⟨hfirst, ?_, fun hheaders hcalled => ?_, fun hmissing => ?_⟩
  · rcases hfirst with ⟨rfl, -⟩ | ⟨hassigned, -⟩
    · refine iff_of_true (Or.inl rfl) fun before row after _ hn => ?_
      exact absurd hn (Nat.succ_ne_zero _).symm
    · rw [← Assigned.called_iff hassigned, or_iff_right (Nat.ne_zero_of_lt hassigned.bounds.1)]
  · obtain ⟨m, hm⟩ : ∃ m, Assigned Row.called? rows name' i' key' m :=
      hplace.resolve_right fun h => h.1 hcalled
    have hassigned : Assigned Row.called? rows name' i' key' n := by
      rw [← assigned_iff_of_agree (hrows.taken?_eq_called? hheaders)] at hm ⊢
      rcases hfirst with ⟨-, hempty⟩ | ⟨hassigned, -⟩
      · exact absurd hm (Set.eq_empty_iff_forall_notMem.mp hempty m)
      · exact hassigned
    exact fun m => ⟨fun hm => hholds.once _ _ _ m n hm hassigned, fun h => h ▸ hassigned⟩
  · rcases hplace with ⟨m, hm⟩ | ⟨-, line, v, hrow⟩
    · exact absurd hm.mem_heading hmissing
    · rcases hfirst with ⟨hzero, -⟩ | ⟨hassigned, -⟩
      · exact hzero
      · exact absurd hassigned.mem_heading (hrows.not_mem_taken hmissing hrow)

section Commented

/-- The first of two tables of one name has a comment behind its header. -/
def commentedText : String :=
  "[[Log]] # a\nname = \"A\"\nsize = 1\n\n[[Log]]\nname = \"B\"\nsize = 2\n"

def commentedRows : List Row :=
  [.header "[[Log]] # a".toList "Log", .entry "name = \"A\"".toList "name" (.text "A"),
    .entry "size = 1".toList "size" (.int 1), .empty [], .header "[[Log]]".toList "Log",
    .entry "name = \"B\"".toList "name" (.text "B"), .entry "size = 2".toList "size" (.int 2)]

theorem rows_commentedText : Rows commentedText.toList commentedRows := by
  have htext : commentedText.toList = unlines (commentedRows.map Row.line) := by decide
  rw [htext]
  -- once the characters are spelled out, what the reader takes is found by computation
  simp only [commentedRows, List.map, Row.line, String.reduceToList, unlines]
  refine .header_line (by decide) rfl rfl rfl ?_
  refine .entry_line (by decide) rfl (by decide) rfl rfl rfl ?_
  refine .entry_line (by decide) rfl (by decide) rfl rfl rfl ?_
  refine .empty_line (by decide) rfl ?_
  refine .header_line (by decide) rfl rfl rfl ?_
  refine .entry_line (by decide) rfl (by decide) rfl rfl rfl ?_
  refine .entry_line (by decide) rfl (by decide) rfl rfl rfl ?_
  exact .nil

theorem ofToml_commentedText : ofToml "spec.toml" commentedText = .error (.unknownKeys
    [⟨"Log.0.size", "spec.toml", 7⟩, ⟨"Log.1.size", "spec.toml", 0⟩]) := by
  have hread : read? commentedText = some [("Log", .tables
      [.table .explicit [("name", .text "A"), ("size", .int 1)],
        .table .explicit [("name", .text "B"), ("size", .int 2)]])] :=
    rows_commentedText.read?_eq.trans rfl
  rw [ofToml, hread]
  rfl

/-- To the search the second table is the first one. -/
theorem unknownKey_line_commented :
    Rows commentedText.toList commentedRows ∧
      ofToml "spec.toml" commentedText = .error (.unknownKeys
        [⟨"Log.0.size", "spec.toml", 7⟩, ⟨"Log.1.size", "spec.toml", 0⟩]) ∧
      IsFirst {n | Assigned Row.taken? commentedRows "Log" 0 "size" n} 7 ∧
      IsFirst {n | Assigned Row.taken? commentedRows "Log" 1 "size" n} 0 := by
  refine ⟨rows_commentedText, ofToml_commentedText, ?_, ?_⟩
  · exact (unknownKey_line rows_commentedText ofToml_commentedText List.mem_cons_self
      (by decide : _ = "Log" ++ "." ++ toString 0 ++ "." ++ "size") (by decide) (by decide)).1
  · exact (unknownKey_line rows_commentedText ofToml_commentedText
      (List.mem_cons_of_mem _ List.mem_cons_self)
      (by decide : _ = "Log" ++ "." ++ toString 1 ++ "." ++ "size") (by decide) (by decide)).1

/-- The line that is found belongs to the second table; the key of the first one stands in another
line. -/
theorem unknownKey_line_in_other_table :
    Rows commentedText.toList commentedRows ∧
      ofToml "spec.toml" commentedText = .error (.unknownKeys
        [⟨"Log.0.size", "spec.toml", 7⟩, ⟨"Log.1.size", "spec.toml", 0⟩]) ∧
      ¬(7 = 0 ∨ Assigned Row.called? commentedRows "Log" 0 "size" 7) ∧
      Assigned Row.called? commentedRows "Log" 0 "size" 3 := by
  refine ⟨rows_commentedText, ofToml_commentedText, ?_, ?_⟩
  · rintro (hzero | hassigned)
    · cases hzero
    · change Assigned Row.called? (commentedRows.take 6 ++ [_]) "Log" 0 "size" _ at hassigned
      exact absurd (rowAt_here_iff.mp hassigned).2 (by decide)
  · exact ⟨commentedRows.take 2, _, commentedRows.drop 3, rfl, rfl, ⟨_, _, rfl⟩, by decide⟩

end Commented

end FileSpec

end UnitFiles

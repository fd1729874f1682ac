import UnitFiles.Proofs.RowLines

/-! The tables that the rows of a spec file build up. Behind each header stands one more table of
its name, and the keys of a table are those that the rows behind its header assign. -/
namespace UnitFiles.Toml
open Text

variable {rows done : List Row} {row : Row} {name key : String} {i n : Nat} {v : Toml}
  {fields final : Fields} {here : List String} {p q : List Row → Row → Prop}

section Places

def namesCalled (rows : List Row) : List String := rows.filterMap Row.called?

/-- The table behind some headers: the name of the last one, and how many before it have that
name. -/
def tableBehind (names : List String) : Option (String × Nat) :=
  names.getLast?.map fun name => (name, names.dropLast.count name)

/-- Something holds of row number `n` and the rows in front of it. -/
def RowAt (p : List Row → Row → Prop) (rows : List Row) (n : Nat) : Prop :=
  ∃ before row after, rows = before ++ row :: after ∧ n = before.length + 1 ∧ p before row

/-- Row number `n` assigns a key inside table number `i` of a name, if the headers are those that
`heading` makes out. -/
def Assigned (heading : Row → Option String) (rows : List Row) (name : String) (i : Nat)
    (key : String) (n : Nat) : Prop :=
  RowAt (fun before row => (∃ line v, row = .entry line key v) ∧
    tableBehind (before.filterMap heading) = some (name, i)) rows n

@[simp] theorem tableBehind_concat (names : List String) (name : String) :
    tableBehind (names ++ [name]) = some (name, names.count name) := by
  simp [tableBehind]

@[simp] theorem namesCalled_append (before after : List Row) :
    namesCalled (before ++ after) = namesCalled before ++ namesCalled after :=
  List.filterMap_append

theorem namesCalled_concat_of_none (h : row.called? = none) :
    namesCalled (done ++ [row]) = namesCalled done := by
  simp [namesCalled, h]

theorem namesCalled_concat_header (done : List Row) (line : List Char) (name : String) :
    namesCalled (done ++ [.header line name]) = namesCalled done ++ [name] := by
  simp [namesCalled, Row.called?]

theorem RowAt.bounds (h : RowAt p rows n) : 0 < n ∧ n ≤ rows.length := by
  obtain ⟨before, row, after, rfl, rfl, -⟩ := h
  simp

theorem rowAt_here_iff {after : List Row} :
    RowAt p (done ++ row :: after) (done.length + 1) ↔ p done row := by
  constructor
  · rintro ⟨before, other, rest, hrows, hlength, hp⟩
    obtain ⟨rfl, hrest⟩ := List.append_inj hrows (Nat.succ.inj hlength)
    obtain ⟨rfl, -⟩ := List.cons.inj hrest
    exact hp
  · intro hp
    exact ⟨done, row, after, rfl, rfl, hp⟩

theorem rowAt_concat_iff : RowAt p (done ++ [row]) n ↔
    RowAt p done n ∨ n = done.length + 1 ∧ p done row := by
  constructor
  · rintro ⟨before, other, after, hrows, hn, hp⟩
    rcases List.eq_nil_or_concat after with rfl | ⟨after, last, rfl⟩
    · obtain ⟨rfl, hrow⟩ := List.append_inj' hrows rfl
      obtain ⟨rfl, -⟩ := List.cons.inj hrow
      exact Or.inr ⟨hn, hp⟩
    · rw [List.concat_eq_append, ← List.cons_append, ← List.append_assoc] at hrows
      obtain ⟨rfl, -⟩ := List.append_inj' hrows rfl
      exact Or.inl ⟨before, other, after, rfl, hn, hp⟩
  · rintro (⟨before, other, after, rfl, hn, hp⟩ | ⟨hn, hp⟩)
    · exact ⟨before, other, after ++ [row], by simp, hn, hp⟩
    · exact ⟨done, row, [], rfl, hn, hp⟩

theorem rowAt_congr (h : ∀ before row after, rows = before ++ row :: after →
    (p before row ↔ q before row)) : RowAt p rows n ↔ RowAt q rows n :=
  exists_congr fun before => exists_congr fun row => exists_congr fun after =>
    and_congr_right fun hrows => and_congr_right fun _ => h before row after hrows

theorem assigned_concat_iff {heading : Row → Option String} :
    Assigned heading (done ++ [row]) name i key n ↔ Assigned heading done name i key n ∨
      n = done.length + 1 ∧ (∃ line v, row = .entry line key v) ∧
        tableBehind (done.filterMap heading) = some (name, i) := rowAt_concat_iff

/-- The number of a table counts those of its name in front of it. -/
theorem Assigned.lt_count {heading : Row → Option String} (h : Assigned heading rows name i key n) :
    i < (rows.filterMap heading).count name := by
  obtain ⟨before, row, after, rfl, -, -, htable⟩ := h
  rcases List.eq_nil_or_concat (before.filterMap heading) with hnil | ⟨names, last, hconcat⟩
  · rw [hnil] at htable
    cases htable
  · rw [hconcat, List.concat_eq_append, tableBehind_concat, Option.some.injEq,
      Prod.mk.injEq] at htable
    obtain ⟨rfl, rfl⟩ := htable
    rw [List.filterMap_append, List.count_append, hconcat, List.concat_eq_append, List.count_append,
      List.count_singleton_self]
    omega

end Places

namespace Fields

theorem get?_set (fields : Fields) (name : String) (v : Toml) (other : String) :
    get? other (fields.set name v) = if other = name then some v else get? other fields := by
  induction fields with
  | nil =>
    by_cases h : other = name
    · simp [set, get?, h]
    · have hne : name ≠ other := fun he => h he.symm
      simp [set, get?, h, hne]
  | cons p rest ih =>
    obtain ⟨n, w⟩ := p
    rw [set]
    split
    · rename_i hn
      by_cases h : other = name
      · simp [get?, hn, h]
      · simp [get?, hn, h, Ne.symm h]
    · rename_i hn
      by_cases h : n = other
      · subst h
        simp [get?, hn]
      · have := ih
        simpa [get?, h] using this

theorem mem_names_set {name other : String} {v : Toml} :
    other ∈ (fields.set name v).map Prod.fst ↔ other = name ∨ other ∈ fields.map Prod.fst := by
  induction fields with
  | nil => simp [set]
  | cons p rest ih =>
    obtain ⟨n, w⟩ := p
    rw [set]
    split
    · rename_i hn
      simp [hn]
    · rw [List.map_cons, List.mem_cons, ih, List.map_cons, List.mem_cons]
      exact or_left_comm

theorem nodup_set (h : (fields.map Prod.fst).Nodup) (name : String) (v : Toml) :
    ((fields.set name v).map Prod.fst).Nodup := by
  induction fields with
  | nil => simp [set]
  | cons p rest ih =>
    obtain ⟨n, w⟩ := p
    obtain ⟨hn, hrest⟩ := List.nodup_cons.mp h
    rw [set]
    split
    · exact h
    · rename_i hne
      rw [List.map_cons, List.nodup_cons, mem_names_set]
      exact ⟨fun hmem => hmem.elim hne hn, ih hrest⟩

theorem get?_of_mem (h : (fields.map Prod.fst).Nodup) (hmem : (name, v) ∈ fields) :
    get? name fields = some v := by
  induction fields with
  | nil => cases hmem
  | cons p rest ih =>
    obtain ⟨hp, hrest⟩ := List.nodup_cons.mp h
    rcases List.mem_cons.mp hmem with rfl | hmem
    · simp [get?]
    · have hne : p.1 ≠ name := fun he => hp (he ▸ List.mem_map_of_mem hmem)
      have := ih hrest hmem
      simpa [get?, hne] using this

theorem get?_eq_none_iff : get? name fields = none ↔ name ∉ fields.map Prod.fst := by
  induction fields with
  | nil => simp [get?]
  | cons p rest ih =>
    obtain ⟨n, w⟩ := p
    by_cases hn : n = name
    · simp [get?, hn]
    · simpa [get?, hn, Ne.symm hn] using ih

end Fields

theorem changeLast?_eq_some {α : Type} {change : α → Option α} {l l' : List α}
    (h : changeLast? change l = some l') :
    ∃ init a b, l = init ++ [a] ∧ change a = some b ∧ l' = init ++ [b] := by
  induction l generalizing l' with
  | nil => cases h
  | cons a rest ih =>
    cases rest with
    | nil =>
      obtain ⟨b, hb, rfl⟩ := Option.map_eq_some_iff.mp h
      exact ⟨[], a, b, rfl, hb, rfl⟩
    | cons c rest =>
      rw [changeLast?, Option.map_eq_some_iff] at h
      · obtain ⟨more, hmore, rfl⟩ := h
        obtain ⟨init, x, y, hinit, hxy, rfl⟩ := ih hmore
        exact ⟨a :: init, x, y, by rw [hinit]; rfl, hxy, rfl⟩
      · exact fun hnil => List.cons_ne_nil c rest hnil

section Running

/-- Tables of a name whose keys are those that the rows assign. -/
def Filled (done : List Row) (name : String) (items : List Toml) : Prop :=
  ∀ i t, items[i]? = some t → ∃ inner, t = .table .explicit inner ∧
    ∀ key, key ∈ inner.map Prod.fst ↔ ∃ n, Assigned Row.called? done name i key n

theorem filled_concat_iff {items : List Toml} {t : Toml} :
    Filled done name (items ++ [t]) ↔ Filled done name items ∧
      ∃ inner, t = .table .explicit inner ∧
        ∀ key, key ∈ inner.map Prod.fst ↔
          ∃ n, Assigned Row.called? done name items.length key n := by
  constructor
  · intro h
    refine ⟨fun i u hu => h i u ?_, h items.length t (by simp)⟩
    rwa [List.getElem?_append_left (List.getElem?_eq_some_iff.mp hu).1]
  · rintro ⟨hitems, hlast⟩ i u hu
    rcases Nat.lt_or_ge i items.length with hi | hi
    · rw [List.getElem?_append_left hi] at hu
      exact hitems i u hu
    · have hbound := (List.getElem?_eq_some_iff.mp hu).1
      rw [List.length_append, List.length_singleton] at hbound
      obtain rfl : i = items.length := by omega
      rw [List.getElem?_append_right hi, Nat.sub_self] at hu
      exact Option.some.inj hu ▸ hlast

/-- A row only changes the table that is open in front of it. -/
theorem Filled.concat {items : List Toml} (h : Filled done name items)
    (hopen : ∀ line key v, row = .entry line key v →
      ∀ i < items.length, tableBehind (namesCalled done) ≠ some (name, i)) :
    Filled (done ++ [row]) name items := by
  intro i t ht
  obtain ⟨inner, rfl, hinner⟩ := h i t ht
  refine ⟨inner, rfl, fun key => (hinner key).trans (exists_congr fun n => ?_)⟩
  rw [assigned_concat_iff, or_iff_left]
  rintro ⟨-, ⟨line, v, hrow⟩, htable⟩
  exact hopen line key v hrow i (List.getElem?_eq_some_iff.mp ht).1 htable

theorem Filled.header {items : List Toml} (h : Filled done name items)
    (hlength : items.length = (namesCalled done).count name) (line : List Char) :
    Filled (done ++ [.header line name]) name (items ++ [.table .explicit []]) := by
  refine filled_concat_iff.mpr ⟨h.concat (by simp), [], rfl, fun key => ?_⟩
  refine iff_of_false List.not_mem_nil ?_
  rintro ⟨n, hn⟩
  rcases assigned_concat_iff.mp hn with hn | ⟨-, ⟨line, v, hrow⟩, -⟩
  · exact absurd hn.lt_count (hlength ▸ Nat.lt_irrefl _)
  · cases hrow

theorem Filled.entry {init : List Toml} {inner : Fields}
    (h : Filled done name (init ++ [.table .explicit inner]))
    (hplace : tableBehind (namesCalled done) = some (name, init.length)) (line : List Char)
    (key : String) (v : Toml) :
    Filled (done ++ [.entry line key v]) name
      (init ++ [.table .explicit (Fields.set key v inner)]) := by
  obtain ⟨hinit, _, ⟨⟩, hinner⟩ := filled_concat_iff.mp h
  refine filled_concat_iff.mpr ⟨hinit.concat ?_, Fields.set key v inner, rfl, fun other => ?_⟩
  · intro _ _ _ _ i hi htable
    rw [hplace] at htable
    cases htable
    exact Nat.lt_irrefl _ hi
  · rw [Fields.mem_names_set, hinner other]
    constructor
    · rintro (rfl | ⟨n, hn⟩)
      · exact ⟨done.length + 1, assigned_concat_iff.mpr (Or.inr ⟨rfl, ⟨line, v, rfl⟩, hplace⟩)⟩
      · exact ⟨n, assigned_concat_iff.mpr (Or.inl hn)⟩
    · rintro ⟨n, hn⟩
      rcases assigned_concat_iff.mp hn with hn | ⟨-, ⟨_, _, hrow⟩, -⟩
      · exact Or.inr ⟨n, hn⟩
      · exact Or.inl (Row.entry.inj hrow).2.1.symm

/-- What the reader knows of a name after some rows: nothing yet, its tables so far, or the value of
an entry in front of all headers. -/
inductive Known (done : List Row) (name : String) : Option Toml → Prop
  | missing (h : name ∉ namesCalled done) : Known done name none
  | tables {items : List Toml} (hcount : items.length = (namesCalled done).count name)
      (hitems : Filled done name items) : Known done name (some (.tables items))
  | entry {line : List Char} {v : Toml} (h : name ∉ namesCalled done)
      (hplain : ∀ items, v ≠ .tables items) (hrow : .entry line name v ∈ done) :
      Known done name (some v)

/-- The state of the reader after some rows: the open table is that of the last header. No key of a
table is assigned twice. -/
structure Holds (done : List Row) (here : List String) (fields : Fields) : Prop where
  here : here = (namesCalled done).getLast?.toList
  distinct : (fields.map Prod.fst).Nodup
  known : ∀ name, Known done name (fields.get? name)
  once : ∀ name i key n m, Assigned Row.called? done name i key n →
    Assigned Row.called? done name i key m → n = m

theorem holds_start : Holds [] [] [] where
  here := rfl
  distinct := List.nodup_nil
  known _ := .missing List.not_mem_nil
  once _ _ _ _ _ h _ := absurd h.bounds.1 (Nat.not_lt.mpr h.bounds.2)

/-- A row that is no header of a name, and no entry in one of its tables, changes nothing that is
known of it. -/
theorem Known.concat {f : Option Toml} (h : Known done name f) (hname : row.called? ≠ some name)
    (hopen : ∀ line key v, row = .entry line key v →
      ∀ i, tableBehind (namesCalled done) ≠ some (name, i)) : Known (done ++ [row]) name f := by
  have hrow : name ∉ namesCalled [row] := by
    simpa [namesCalled, List.mem_filterMap] using hname
  have hmem : name ∉ namesCalled done → name ∉ namesCalled (done ++ [row]) := by
    rw [namesCalled_append, List.mem_append]
    exact fun hdone => not_or.mpr ⟨hdone, hrow⟩
  cases h with
  | missing h => exact .missing (hmem h)
  | tables hcount hitems =>
    refine .tables ?_ (hitems.concat fun line key v he i _ => hopen line key v he i)
    rw [hcount, namesCalled_append, List.count_append, List.count_eq_zero.mpr hrow, Nat.add_zero]
  | entry h hplain hentry => exact .entry (hmem h) hplain (List.mem_append_left _ hentry)

/-- An entry assigns a new key of the open table. -/
theorem Holds.once_concat (h : Holds done here fields)
    (hnew : ∀ line key v, row = .entry line key v → ∀ name i m,
      tableBehind (namesCalled done) = some (name, i) → ¬Assigned Row.called? done name i key m)
    (name : String) (i : Nat) (key : String) (n m : Nat)
    (hn : Assigned Row.called? (done ++ [row]) name i key n)
    (hm : Assigned Row.called? (done ++ [row]) name i key m) : n = m := by
  rcases assigned_concat_iff.mp hn with hn | ⟨rfl, ⟨line, v, hrow⟩, htable⟩
  · rcases assigned_concat_iff.mp hm with hm | ⟨rfl, ⟨line, v, hrow⟩, htable⟩
    · exact h.once name i key n m hn hm
    · exact absurd hn (hnew line key v hrow name i n htable)
  · rcases assigned_concat_iff.mp hm with hm | ⟨rfl, -⟩
    · exact absurd hm (hnew line key v hrow name i m htable)
    · rfl

theorem Holds.empty (h : Holds done here fields) (line : List Char) :
    Holds (done ++ [.empty line]) here fields where
  here := by rw [namesCalled_concat_of_none rfl, h.here]
  distinct := h.distinct
  known name := (h.known name).concat (by simp [Row.called?]) (by simp)
  once := h.once_concat (by simp)

/-- One field changes, and the rest is as it was. -/
theorem Holds.set {here' : List String} (h : Holds done here fields)
    (hhere : here' = (namesCalled (done ++ [row])).getLast?.toList)
    (hname : Known (done ++ [row]) name (some v))
    (hothers : ∀ other ≠ name, row.called? ≠ some other ∧ ∀ line key v, row = .entry line key v →
      ∀ i, tableBehind (namesCalled done) ≠ some (other, i))
    (hnew : ∀ line key v, row = .entry line key v → ∀ name i m,
      tableBehind (namesCalled done) = some (name, i) → ¬Assigned Row.called? done name i key m) :
    Holds (done ++ [row]) here' (fields.set name v) where
  here := hhere
  distinct := Fields.nodup_set h.distinct name v
  known other := by
    rw [Fields.get?_set]
    split
    · rename_i hother
      rw [hother]
      exact hname
    · rename_i hother
      obtain ⟨hcalled, hopen⟩ := hothers other hother
      exact (h.known other).concat hcalled hopen
  once := h.once_concat hnew

theorem Holds.header {fields' : Fields} (h : Holds done here fields) (line : List Char)
    (hopen : openItem [] name fields = some fields') :
    Holds (done ++ [.header line name]) [name] fields' := by
  have hnames := namesCalled_concat_header done line name
  obtain ⟨items, hitems, hlength, rfl⟩ : ∃ items, Filled done name items ∧
      items.length = (namesCalled done).count name ∧
      fields.set name (.tables (items ++ [.table .explicit []])) = fields' := by
    have hknown := h.known name
    rw [openItem, descend] at hopen
    generalize Fields.get? name fields = f at hknown hopen
    cases hknown with
    | missing hmissing =>
      exact ⟨[], by simp [Filled], (List.count_eq_zero.mpr hmissing).symm, Option.some.inj hopen⟩
    | tables hcount hitems => exact ⟨_, hitems, hcount, Option.some.inj hopen⟩
    | entry _ hplain _ =>
      split at hopen
      · rename_i heq
        cases heq
      · rename_i heq
        exact absurd (Option.some.inj heq) (hplain _)
      · cases hopen
  refine h.set (by rw [hnames]; simp) (.tables ?_ (hitems.header hlength line))
    (fun other hother => ?_) (by simp)
  · rw [hnames, List.count_append, List.count_singleton_self, List.length_append, hlength,
      List.length_singleton]
  · exact ⟨by simpa [Row.called?] using Ne.symm hother, by simp⟩

theorem insertKey_eq_some {fields' : Fields} (h : insertKey [] key v fields = some fields') :
    Fields.get? key fields = none ∧ fields.set key v = fields' := by
  rw [insertKey, descend] at h
  simp only [List.isEmpty_nil, Bool.not_true, Bool.false_and, Bool.false_eq_true, if_false] at h
  split at h
  · cases h
  · rename_i hnone
    exact ⟨by simpa using hnone, Option.some.inj h⟩

theorem Holds.entry_front {fields' : Fields} (h : Holds done [] fields) (line : List Char)
    (hnil : namesCalled done = []) (hplain : ∀ items, v ≠ .tables items)
    (hinsert : insertKey [] key v fields = some fields') :
    Holds (done ++ [.entry line key v]) [] fields' := by
  have hnames : namesCalled (done ++ [.entry line key v]) = [] := by
    rw [namesCalled_concat_of_none rfl, hnil]
  obtain ⟨-, rfl⟩ := insertKey_eq_some hinsert
  refine h.set (by rw [hnames]; rfl) ?_ (fun other _ => ?_) (by simp [hnil, tableBehind])
  · exact .entry (hnames ▸ List.not_mem_nil) hplain
      (List.mem_append_right done (List.mem_singleton.mpr rfl))
  · exact ⟨by simp [Row.called?], by simp [hnil, tableBehind]⟩

theorem Holds.entry_table {fields' : Fields} {names : List String} (h : Holds done [name] fields)
    (line : List Char) (hdone : namesCalled done = names ++ [name])
    (hrun : descend false (fun _ inner => insertKey [] key v inner) [name] .explicit fields =
      some fields') : Holds (done ++ [.entry line key v]) [name] fields' := by
  have hnames : namesCalled (done ++ [.entry line key v]) = names ++ [name] := by
    rw [namesCalled_concat_of_none rfl, hdone]
  have hmem : name ∈ namesCalled done := by simp [hdone]
  have hknown := h.known name
  rw [descend] at hrun
  generalize Fields.get? name fields = f at hknown hrun
  cases hknown with
  | missing hmissing => exact absurd hmem hmissing
  | entry hmissing _ _ => exact absurd hmem hmissing
  | tables hcount hitems =>
    obtain ⟨_, hchange, rfl⟩ := Option.map_eq_some_iff.mp hrun
    obtain ⟨init, _, _, rfl, hlast, rfl⟩ := changeLast?_eq_some hchange
    obtain ⟨-, inner, rfl, hinner⟩ := filled_concat_iff.mp hitems
    obtain ⟨_, hinsert, rfl⟩ := Option.map_eq_some_iff.mp hlast
    rw [descend] at hinsert
    obtain ⟨hnew, rfl⟩ := insertKey_eq_some hinsert
    have hlength : init.length = names.count name := by
      rw [hdone, List.count_append, List.count_singleton_self, List.length_append,
        List.length_singleton] at hcount
      exact Nat.succ.inj hcount
    have hplace : tableBehind (namesCalled done) = some (name, init.length) := by
      rw [hdone, tableBehind_concat, hlength]
    refine h.set (by rw [hnames]; simp) (.tables ?_ (hitems.entry hplace line key v))
      (fun other hother => ?_) ?_
    · rw [hnames, List.count_append, List.count_singleton_self, List.length_append, hlength,
        List.length_singleton]
    · refine ⟨by simp [Row.called?], fun _ _ _ _ i htable => hother ?_⟩
      rw [hplace] at htable
      cases htable
      rfl
    · intro _ _ _ hrow called i m htable hm
      rw [hplace] at htable
      cases htable
      cases hrow
      exact Fields.get?_eq_none_iff.mp hnew ((hinner key).mpr ⟨m, hm⟩)

theorem Holds.entry {fields' : Fields} (h : Holds done here fields) (line : List Char)
    (hplain : ∀ items, v ≠ .tables items)
    (hrun : descend false (fun _ inner => insertKey [] key v inner) here .explicit fields =
      some fields') :
    Holds (done ++ [.entry line key v]) here fields' := by
  have hhere := h.here
  rcases List.eq_nil_or_concat (namesCalled done) with hnil | ⟨names, name, hconcat⟩
  · rw [hnil, List.getLast?_nil, Option.toList_none] at hhere
    subst hhere
    rw [descend] at hrun
    exact h.entry_front line hnil hplain hrun
  · rw [List.concat_eq_append] at hconcat
    rw [hconcat, List.getLast?_concat, Option.toList_some] at hhere
    subst hhere
    exact h.entry_table line hconcat hrun

/-- What holds after some rows holds, with those that follow, after the whole run. -/
theorem Holds.run (h : Holds done here fields)
    (hplain : ∀ line key v, .entry line key v ∈ rows → ∀ items, v ≠ .tables items)
    (hrun : execute here fields (rows.filterMap Row.statement?) = some final) :
    ∃ here', Holds (done ++ rows) here' final := by
  induction rows generalizing done here fields with
  | nil =>
    obtain rfl := Option.some.inj hrun
    exact ⟨here, by rwa [List.append_nil]⟩
  | cons row rows ih =>
    have hrest := fun line key v hmem => hplain line key v (List.mem_cons_of_mem row hmem)
    rw [List.append_cons]
    cases row with
    | empty line => exact ih (h.empty line) hrest hrun
    | header line name =>
      obtain ⟨next, hopen, hrun⟩ := Option.bind_eq_some_iff.mp hrun
      exact ih (h.header line hopen) hrest hrun
    | entry line key v =>
      obtain ⟨next, hentry, hrun⟩ := Option.bind_eq_some_iff.mp hrun
      exact ih (h.entry line (hplain line key v List.mem_cons_self) hentry) hrest hrun

end Running

section Values
variable {s rest : List Char}

theorem toInt?_ne_tables {negative : Bool} {n : Nat} (h : toInt? negative n = some v)
    (items : List Toml) : v ≠ .tables items := by
  rintro rfl
  rw [toInt?] at h
  split at h <;> split at h <;> cases h

theorem toFloat?_ne_tables {negative : Bool} {digits : List Char} {e : Int}
    (h : toFloat? negative digits e = some v) (items : List Toml) : v ≠ .tables items := by
  rintro rfl
  rw [toFloat?] at h
  split at h <;> cases h

theorem takeDecimal_ne_tables (h : takeDecimal s = some (v, rest)) (items : List Toml) :
    v ≠ .tables items := by
  rw [takeDecimal] at h
  dsimp only at h
  split at h
  · cases h
    simp
  · cases h
    simp
  · obtain ⟨⟨whole, more⟩, -, h⟩ := Option.bind_eq_some_iff.mp h
    dsimp only at h
    split at h
    · obtain ⟨⟨fraction, more⟩, -, h⟩ := Option.bind_eq_some_iff.mp h
      obtain ⟨⟨e, more⟩, -, h⟩ := Option.bind_eq_some_iff.mp h
      obtain ⟨w, hw, h⟩ := Option.map_eq_some_iff.mp h
      cases h
      exact toFloat?_ne_tables hw items
    · obtain ⟨⟨e, more⟩, -, h⟩ := Option.bind_eq_some_iff.mp h
      dsimp only at h
      split at h
      · obtain ⟨w, hw, h⟩ := Option.map_eq_some_iff.mp h
        cases h
        exact toFloat?_ne_tables hw items
      · obtain ⟨w, hw, h⟩ := Option.map_eq_some_iff.mp h
        cases h
        exact toInt?_ne_tables hw items

theorem takeBased_ne_tables {base : Nat} (h : takeBased base s = some (v, rest))
    (items : List Toml) : v ≠ .tables items := by
  obtain ⟨⟨digits, more⟩, -, h⟩ := Option.bind_eq_some_iff.mp h
  obtain ⟨w, hw, h⟩ := Option.map_eq_some_iff.mp h
  cases h
  exact toInt?_ne_tables hw items

theorem takeDateOrNumber_ne_tables (h : takeDateOrNumber s = some (v, rest)) (items : List Toml) :
    v ≠ .tables items := by
  rw [takeDateOrNumber] at h
  split at h
  · cases h
    simp
  · rw [takeNumber.eq_def] at h
    split at h
    · exact takeBased_ne_tables h items
    · exact takeBased_ne_tables h items
    · exact takeBased_ne_tables h items
    · exact takeDecimal_ne_tables h items

theorem ne_tables_of_map {α : Type} {o : Option α} {f : α → Toml × List Char} {items : List Toml}
    (h : o.map f = some (v, rest)) (hf : ∀ a, (f a).1 ≠ .tables items) : v ≠ .tables items := by
  obtain ⟨a, -, ha⟩ := Option.map_eq_some_iff.mp h
  obtain rfl : (f a).1 = v := congrArg Prod.fst ha
  exact hf a

/-- Only headers make arrays of tables. -/
theorem takeValue_ne_tables {fuel depth : Nat} (h : takeValue fuel depth s = some (v, rest))
    (items : List Toml) : v ≠ .tables items := by
  cases fuel with
  | zero => cases h
  | succ fuel =>
    cases s with
    | nil => cases h
    | cons c s =>
      rw [takeValue] at h
      split at h
      · exact ne_tables_of_map h (by simp)
      split at h
      · split at h
        · cases h
        · exact ne_tables_of_map h (by simp)
      split at h
      · split at h
        · cases h
        · split at h
          · cases h
            simp
          · exact ne_tables_of_map h (by simp)
      split at h
      · exact takeDateOrNumber_ne_tables h items
      split at h
      · exact ne_tables_of_map h (by simp)
      split at h
      · exact ne_tables_of_map h (by simp)
      split at h
      · exact takeDecimal_ne_tables h items
      · cases h

theorem ReadsRow.ne_tables {line : List Char} (h : ReadsRow s (.entry line key v))
    (items : List Toml) : v ≠ .tables items := by
  cases h with
  | entry hstart hbare h =>
    rw [hstart, takeStatement_assign_iff (ne_bracket hbare)] at h
    obtain ⟨value, rest, -, hvalue, -⟩ := h
    exact takeValue_ne_tables hvalue items

theorem ReadsRow.bare_key {line : List Char} (h : ReadsRow s (.entry line key v)) :
    (∀ c ∈ key.toList, isBareKeyChar c = true) ∧ key.toList ≠ [] := by
  cases h with
  | entry hstart hbare h => exact (trim_entry hstart hbare h).2

theorem Rows.exists_readsRow (h : Rows s rows) (hmem : row ∈ rows) : ∃ t, ReadsRow t row := by
  induction h with
  | nil => cases hmem
  | cons hne hrow hrows ih =>
    rcases List.mem_cons.mp hmem with rfl | hmem
    · exact ⟨_, hrow⟩
    · exact ih hmem

end Values

section Unknown
variable {text : String} {k : String}

theorem Rows.holds (h : Rows text.toList rows) (hread : read? text = some fields) :
    ∃ here, Holds rows here fields := by
  rw [h.read?_eq] at hread
  have hplain : ∀ line key v, .entry line key v ∈ rows → ∀ items, v ≠ .tables items := by
    intro line key v hmem
    obtain ⟨t, ht⟩ := h.exists_readsRow hmem
    exact ht.ne_tables
  obtain ⟨here, hholds⟩ := holds_start.run hplain hread
  exact ⟨here, by rwa [List.nil_append] at hholds⟩

theorem mem_strayFrom {items : List Toml} {start : Nat} (h : k ∈ strayFrom name start items) :
    ∃ i t key, items[i]? = some t ∧ key ∈ strayKeys t ∧
      k = name ++ "." ++ toString (start + i) ++ "." ++ key := by
  induction items generalizing start with
  | nil => cases h
  | cons item rest ih =>
    rw [strayFrom, List.mem_append] at h
    rcases h with h | h
    · obtain ⟨key, hkey, rfl⟩ := List.mem_map.mp h
      exact ⟨0, item, key, rfl, hkey, rfl⟩
    · obtain ⟨i, t, key, ht, hkey, rfl⟩ := ih h
      exact ⟨i + 1, t, key, ht, hkey, by rw [Nat.add_right_comm]; rfl⟩

/-- An unknown key is a key of a table, or of an item of an array that an entry assigns. -/
theorem Holds.unknown (h : Holds rows here fields) (hk : k ∈ stray fields) :
    ∃ name i key, k = name ++ "." ++ toString i ++ "." ++ key ∧
      ((∃ n, Assigned Row.called? rows name i key n) ∨
        name ∉ namesCalled rows ∧ ∃ line v, .entry line name v ∈ rows) := by
  obtain ⟨⟨name, v⟩, hfield, hk⟩ := List.mem_flatMap.mp hk
  have hknown := h.known name
  rw [Fields.get?_of_mem h.distinct hfield] at hknown
  cases v with
  | tables items =>
    obtain ⟨i, t, key, ht, hkey, rfl⟩ := mem_strayFrom hk
    refine ⟨name, i, key, by rw [Nat.zero_add], Or.inl ?_⟩
    cases hknown with
    | tables hcount hitems =>
      obtain ⟨inner, rfl, hinner⟩ := hitems i t ht
      exact (hinner key).mp (List.mem_filter.mp hkey).1
    | entry _ hplain _ => exact absurd rfl (hplain items)
  | array items =>
    obtain ⟨i, t, key, ht, hkey, rfl⟩ := mem_strayFrom hk
    refine ⟨name, i, key, by rw [Nat.zero_add], Or.inr ?_⟩
    cases hknown with
    | entry hmissing _ hrow => exact ⟨hmissing, _, _, hrow⟩
  | _ => cases hk

end Unknown

end UnitFiles.Toml

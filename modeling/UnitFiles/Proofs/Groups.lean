import UnitFiles.Validation
import UnitFiles.Proofs.CaseFolding

/-! Options grouped by name. The group of a name holds exactly the options with that name, in
their order, and the names of the groups increase. -/
namespace UnitFiles
open Text

namespace Keyed
variable {α : Type}

def Ordered (m : Keyed α) : Prop := m.Pairwise fun p q => p.1 < q.1

theorem mem_of_mem_put {name : String} {a : α} {m : Keyed α} {p : String × α}
    (h : p ∈ put name a m) : p = (name, a) ∨ p ∈ m := by
  induction m with
  | nil => simpa [put] using h
  | cons q rest ih =>
    obtain ⟨n, b⟩ := q
    rw [put] at h
    split at h
    · rcases List.mem_cons.mp h with h | h
      · exact Or.inl h
      · exact Or.inr (List.mem_cons_of_mem _ h)
    · split at h
      · exact List.mem_cons.mp h
      · rcases List.mem_cons.mp h with rfl | h
        · exact Or.inr List.mem_cons_self
        · exact (ih h).imp_right (List.mem_cons_of_mem _)

theorem Ordered.put {m : Keyed α} (h : Ordered m) (name : String) (a : α) :
    Ordered (put name a m) := by
  induction m with
  | nil => exact List.pairwise_singleton _ _
  | cons q rest ih =>
    obtain ⟨n, b⟩ := q
    obtain ⟨hfirst, hrest⟩ := List.pairwise_cons.mp h
    rw [Keyed.put]
    split
    · rename_i he
      exact List.pairwise_cons.mpr ⟨fun p hp => he ▸ hfirst p hp, hrest⟩
    · split
      · rename_i _ hlt
        refine List.pairwise_cons.mpr ⟨fun p hp => ?_, h⟩
        rcases List.mem_cons.mp hp with rfl | hp
        · exact hlt
        · exact String.lt_trans hlt (hfirst p hp)
      · rename_i hne hnlt
        refine List.pairwise_cons.mpr ⟨fun p hp => ?_, ih hrest⟩
        rcases mem_of_mem_put hp with rfl | hp
        · exact Std.lt_of_le_of_ne (String.not_lt.mp hnlt) (Ne.symm hne)
        · exact hfirst p hp

theorem Ordered.mem_iff {m : Keyed α} (h : Ordered m) {name : String} {a : α} :
    (name, a) ∈ m ↔ get? name m = some a := by
  induction m with
  | nil => simp [get?]
  | cons q rest ih =>
    obtain ⟨n, b⟩ := q
    obtain ⟨hfirst, hrest⟩ := List.pairwise_cons.mp h
    by_cases hn : n = name
    · subst hn
      have hnot : (n, a) ∉ rest := fun hmem => String.lt_irrefl n (hfirst (n, a) hmem)
      simp [get?, hnot, eq_comm]
    · have := ih hrest
      simpa [get?, hn, Ne.symm hn] using this

theorem Ordered.filter_eq {m : Keyed α} (h : Ordered m) (name : String) :
    (m.filter fun p => p.1 == name) = (get? name m).toList.map fun a => (name, a) := by
  induction m with
  | nil => rfl
  | cons q rest ih =>
    obtain ⟨n, b⟩ := q
    obtain ⟨hfirst, hrest⟩ := List.pairwise_cons.mp h
    by_cases hn : n = name
    · subst hn
      have hnil : (rest.filter fun p => p.1 == n) = [] := by
        rw [List.filter_eq_nil_iff]
        intro p hp he
        exact String.lt_irrefl n (by simpa [beq_iff_eq.mp he] using hfirst p hp)
      simp [get?, hnil]
    · have := ih hrest
      simpa [get?, hn] using this

theorem ordered_foldl_put {m : Keyed α} (h : m.Ordered) (pairs : List (String × α)) :
    Ordered (pairs.foldl (fun m p => put p.1 p.2 m) m) := by
  induction pairs generalizing m with
  | nil => exact h
  | cons p rest ih => exact ih (h.put p.1 p.2)

theorem ordered_ofList (pairs : List (String × α)) : (ofList pairs).Ordered :=
  ordered_foldl_put List.Pairwise.nil pairs

theorem Ordered.mem_put {m : Keyed α} (h : m.Ordered) {name : String} (hnew : get? name m = none)
    (a : α) {p : String × α} : p ∈ Keyed.put name a m ↔ p = (name, a) ∨ p ∈ m := by
  refine ⟨mem_of_mem_put, ?_⟩
  obtain ⟨n, b⟩ := p
  rintro (hp | hp)
  · cases hp
    exact (h.put name a).mem_iff.mpr (get?_put_self name a m)
  · have hget := h.mem_iff.mp hp
    have hne : n ≠ name := by
      rintro rfl
      rw [hnew] at hget
      cases hget
    exact (h.put name a).mem_iff.mpr ((get?_put_of_ne hne a m).trans hget)

theorem mem_foldl_put {m : Keyed α} (h : m.Ordered) {pairs : List (String × α)}
    (distinct : (pairs.map Prod.fst).Nodup) (hnew : ∀ p ∈ pairs, get? p.1 m = none)
    {p : String × α} :
    p ∈ pairs.foldl (fun m p => put p.1 p.2 m) m ↔ p ∈ pairs ∨ p ∈ m := by
  induction pairs generalizing m with
  | nil => simp
  | cons q rest ih =>
    rw [List.map_cons, List.nodup_cons] at distinct
    obtain ⟨hname, hrest⟩ := distinct
    obtain ⟨hq, hothers⟩ := List.forall_mem_cons.mp hnew
    have hnew' : ∀ r ∈ rest, get? r.1 (put q.1 q.2 m) = none := by
      intro r hr
      have hne : r.1 ≠ q.1 := fun heq => hname (heq ▸ List.mem_map_of_mem hr)
      rw [get?_put_of_ne hne, hothers r hr]
    rw [List.foldl_cons, ih (h.put q.1 q.2) hrest hnew', h.mem_put hq, List.mem_cons]
    exact or_left_comm.trans or_assoc.symm

/-- Of distinct names all stay. -/
theorem mem_ofList {pairs : List (String × α)} (distinct : (pairs.map Prod.fst).Nodup)
    {p : String × α} : p ∈ ofList pairs ↔ p ∈ pairs := by
  rw [ofList, mem_foldl_put List.Pairwise.nil distinct fun _ _ => rfl]
  simp

end Keyed

/-- The options with a name, in any spelling. -/
def Entry.named (name : String) (entries : List Entry) : List Entry :=
  entries.filter fun e => sameName e.name name

theorem Section.values_eq (s : Section) (name : String) :
    s.values name = (Entry.named name s.entries).map Entry.value := rfl

theorem Section.has_iff {s : Section} {name : String} :
    s.has name = true ↔ Entry.named name s.entries ≠ [] := by
  simp [has, Entry.named]

theorem Section.values_eq_nil_iff {s : Section} {name : String} :
    s.values name = [] ↔ s.has name = false := by
  rw [values_eq, List.map_eq_nil_iff, ← Bool.not_eq_true, has_iff, Decidable.not_not]

theorem Section.isEmpty_values (s : Section) (name : String) :
    (s.values name).isEmpty = !s.has name := by
  rw [Bool.eq_iff_iff, List.isEmpty_iff, values_eq_nil_iff, Bool.not_eq_true']

namespace Entry

@[simp] theorem named_append (name : String) (es fs : List Entry) :
    named name (es ++ fs) = named name es ++ named name fs := List.filter_append ..

theorem named_congr {a b : String} (h : sameName a b = true) (es : List Entry) :
    named a es = named b es := by
  simp only [named, sameName_congr h]

theorem sameName_of_mem_named {name : String} {es : List Entry} {e : Entry}
    (h : e ∈ named name es) : sameName e.name name = true := (List.mem_filter.mp h).2

theorem mem_of_mem_named {name : String} {es : List Entry} {e : Entry} (h : e ∈ named name es) :
    e ∈ es := (List.mem_filter.mp h).1

theorem mem_named_self {es : List Entry} {e : Entry} (h : e ∈ es) : e ∈ named e.name es :=
  List.mem_filter.mpr ⟨h, sameName_refl e.name⟩

theorem named_of_forall {name other : String} {es : List Entry}
    (h : ∀ e ∈ es, sameName e.name other = true) :
    named name es = if sameName other name then es else [] := by
  have hsame : ∀ e ∈ es, sameName e.name name = sameName other name := by
    intro e he
    rw [sameName_comm e.name, sameName_comm other, sameName_congr (h e he)]
  split
  · rename_i hother
    exact List.filter_eq_self.mpr fun e he => (hsame e he).trans hother
  · rename_i hother
    exact List.filter_eq_nil_iff.mpr fun e he => by rw [hsame e he]; exact hother

end Entry

namespace Section

def called (name : String) (sections : List Section) : List Section :=
  sections.filter fun s => sameName s.name name

theorem called_congr {a b : String} (h : sameName a b = true) (sections : List Section) :
    called a sections = called b sections := by
  simp only [called, sameName_congr h]

theorem mem_called {name : String} {sections : List Section} {s : Section} :
    s ∈ called name sections ↔ s ∈ sections ∧ sameName s.name name = true := List.mem_filter

end Section

theorem Document.sectionsNamed_eq (d : Document) (name : String) :
    d.sectionsNamed name = Section.called name d.sections := rfl

namespace Group

def extend : Option Group → List Entry → Option Group
  | some g, es => some { g with more := g.more ++ es }
  | none, [] => none
  | none, e :: es => some ⟨e, es⟩

theorem extend_nil (g : Option Group) : extend g [] = g := by
  cases g <;> simp [extend]

theorem extend_cons (g : Option Group) (e : Entry) (es : List Entry) :
    extend g (e :: es) = extend (extend g [e]) es := by
  cases g <;> simp [extend]

theorem get?_add (key : String) (groups : Keyed Group) (e : Entry) :
    Keyed.get? key (add groups e) =
      extend (Keyed.get? key groups) (if fold e.name = key then [e] else []) := by
  rw [add]
  split
  · rename_i hnone
    split
    · rename_i he
      rw [← he, hnone, Keyed.get?_put_self]
      rfl
    · rename_i he
      rw [Keyed.get?_put_of_ne (Ne.symm he), extend_nil]
  · rename_i g hsome
    split
    · rename_i he
      rw [← he, hsome, Keyed.get?_put_self]
      rfl
    · rename_i he
      rw [Keyed.get?_put_of_ne (Ne.symm he), extend_nil]

theorem get?_foldl_add (key : String) (groups : Keyed Group) (es : List Entry) :
    Keyed.get? key (es.foldl add groups) =
      extend (Keyed.get? key groups) (es.filter fun e => fold e.name == key) := by
  induction es generalizing groups with
  | nil => simp [extend_nil]
  | cons e rest ih =>
    rw [List.foldl_cons, ih, get?_add, List.filter_cons]
    by_cases he : fold e.name = key
    · simp [he, ← extend_cons]
    · simp [he, extend_nil]

theorem ordered_foldl_add {groups : Keyed Group} (h : groups.Ordered) (es : List Entry) :
    Keyed.Ordered (es.foldl add groups) := by
  induction es generalizing groups with
  | nil => exact h
  | cons e rest ih =>
    rw [List.foldl_cons]
    apply ih
    rw [add]
    split <;> exact h.put _ _

theorem ordered_ofEntries (es : List Entry) : Keyed.Ordered (ofEntries es) :=
  ordered_foldl_add List.Pairwise.nil es

/-- The groups are the lists of options of one name, under the lowercase form of that name. -/
theorem mem_ofEntries {key : String} {g : Group} {es : List Entry} :
    (key, g) ∈ ofEntries es ↔ g.entries = es.filter fun e => fold e.name == key := by
  rw [(ordered_ofEntries es).mem_iff, ofEntries, get?_foldl_add]
  obtain ⟨first, more⟩ := g
  cases es.filter fun e => fold e.name == key <;> simp [Keyed.get?, extend, entries, eq_comm]

theorem fold_eq_key {key : String} {g : Group} {es : List Entry} (h : (key, g) ∈ ofEntries es) :
    ∀ e ∈ g.entries, fold e.name = key := by
  intro e he
  rw [mem_ofEntries.mp h] at he
  exact beq_iff_eq.mp (List.mem_filter.mp he).2

theorem sameName_key {es : List Entry} :
    ∀ p ∈ ofEntries es, ∀ e ∈ p.2.entries, sameName e.name p.1 = true := by
  rintro ⟨key, g⟩ hp e he
  rw [← fold_eq_key hp e he, sameName_fold, sameName_refl]

theorem first_mem (g : Group) : g.first ∈ g.entries := List.mem_cons_self

theorem filter_fold_eq_named (name : String) (es : List Entry) :
    (es.filter fun e => fold e.name == fold name) = Entry.named name es := by
  simp only [Entry.named, sameName_eq]

theorem entries_eq_named {key : String} {g : Group} {es : List Entry}
    (h : (key, g) ∈ ofEntries es) :
    g.entries = Entry.named g.first.name es := by
  rw [mem_ofEntries.mp h, ← filter_fold_eq_named, fold_eq_key h g.first g.first_mem]

theorem exists_group {e : Entry} {es : List Entry} (h : e ∈ es) :
    ∃ g, (fold e.name, g) ∈ ofEntries es ∧ g.entries = Entry.named e.name es := by
  have hmem : e ∈ Entry.named e.name es := Entry.mem_named_self h
  cases hnamed : Entry.named e.name es with
  | nil => simp [hnamed] at hmem
  | cons first more =>
    have hentries : (⟨first, more⟩ : Group).entries = Entry.named e.name es := hnamed.symm
    exact ⟨⟨first, more⟩, mem_ofEntries.mpr (by rw [hentries, filter_fold_eq_named]), rfl⟩

theorem get?_ofEntries_isNone {name : String} {es : List Entry} :
    (Keyed.get? (fold name) (ofEntries es)).isNone = true ↔ Entry.named name es = [] := by
  rw [ofEntries, get?_foldl_add, filter_fold_eq_named]
  cases Entry.named name es <;> simp [Keyed.get?, extend]

/-- A name selects the group of its options, if there are any. -/
theorem filter_ofEntries (name : String) (es : List Entry) :
    ((ofEntries es).filter fun p => sameName p.1 name) =
      (extend none (Entry.named name es)).toList.map fun g => (fold name, g) := by
  have hkeys : ∀ p ∈ ofEntries es, sameName p.1 name = (p.1 == fold name) := by
    rintro ⟨key, g⟩ hp
    have hkey : fold key = key := by
      rw [← fold_eq_key hp g.first g.first_mem, fold_fold]
    rw [sameName_eq, hkey]
  rw [List.filter_congr hkeys, (ordered_ofEntries es).filter_eq, ofEntries, get?_foldl_add,
    filter_fold_eq_named]
  rfl

end Group
end UnitFiles

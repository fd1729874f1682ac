import UnitFiles.Proofs.Variables

/-! The settings of an environment once they are arranged: those of one place have become one, under
the first of them, and the indexes of a section go up from 0 without a gap, or the first index that
does not is known. -/
namespace UnitFiles.Environment

theorem le_of_mem_cons {α β : Type} [Preorder β] {key : α → β} {a b : α} {rest : List α}
    (h : (a :: rest).Pairwise fun x y => key x < key y) (hb : b ∈ a :: rest) : key a ≤ key b := by
  rcases List.mem_cons.mp hb with rfl | hb
  · exact le_rfl
  · exact le_of_lt ((List.pairwise_cons.mp h).1 b hb)

def joined : List Setting → Option Setting
  | [] => none
  | s :: rest => some { s with entries := (s :: rest).flatMap Setting.entries }

theorem ordered_arranged (found : List Setting) : Ordered (arranged found) := by
  have hfold : ∀ all : List Setting, Ordered all →
      Ordered (found.foldl (fun all s => addSetting s all) all) := by
    induction found with
    | nil => exact fun _ h => h
    | cons s rest ih => exact fun all h => ih (addSetting s all) (h.addSetting s)
  exact hfold [] List.Pairwise.nil

theorem foldl_addSetting_of_place {t : Setting} {found : List Setting}
    (h : ∀ s ∈ found, s.place = t.place) :
    found.foldl (fun all s => addSetting s all) [t] =
      [{ t with entries := t.entries ++ found.flatMap Setting.entries }] := by
  induction found generalizing t with
  | nil => simp
  | cons s rest ih =>
    obtain ⟨hs, hrest⟩ := List.forall_mem_cons.mp h
    have hih := ih (t := { t with entries := t.entries ++ s.entries }) hrest
    rw [List.foldl_cons, addSetting_cons, if_pos hs, hih, List.flatMap_cons, List.append_assoc]

theorem mem_filter_place {found : List Setting} {place : String ×ₗ Nat} {s : Setting} :
    s ∈ found.filter (fun s => s.place = place) ↔ s ∈ found ∧ s.place = place := by
  rw [List.mem_filter, decide_eq_true_iff]

theorem mem_arranged {found : List Setting} {t : Setting} :
    t ∈ arranged found ↔ joined (found.filter fun s => s.place = t.place) = some t := by
  have hplace : ∀ s ∈ found.filter fun s => s.place = t.place, s.place = t.place :=
    fun s hs => (mem_filter_place.mp hs).2
  have hmem : t ∈ arranged found ↔ t ∈ arranged (found.filter fun s => s.place = t.place) := by
    have hfilter := filter_arranged (fun place : String ×ₗ Nat => decide (place = t.place)) found
    rw [← hfilter, List.mem_filter]
    simp
  rw [hmem]
  generalize found.filter (fun s => s.place = t.place) = here at hplace
  cases here with
  | nil => simp [arranged, joined]
  | cons s rest =>
    obtain ⟨hs, hrest⟩ := List.forall_mem_cons.mp hplace
    have hsame : ∀ u ∈ rest, u.place = s.place := fun u hu => (hrest u hu).trans hs.symm
    have harranged : arranged (s :: rest) =
        [{ s with entries := (s :: rest).flatMap Setting.entries }] :=
      foldl_addSetting_of_place hsame
    rw [harranged, List.mem_singleton, joined, Option.some.injEq, eq_comm]

theorem exists_mem_arranged {found : List Setting} {place : String ×ₗ Nat} :
    (∃ t ∈ arranged found, t.place = place) ↔ ∃ s ∈ found, s.place = place := by
  constructor
  · rintro ⟨t, ht, rfl⟩
    have hjoined := mem_arranged.mp ht
    cases hhere : found.filter (fun s => s.place = t.place) with
    | nil =>
      rw [hhere] at hjoined
      cases hjoined
    | cons s rest =>
      have hs : s ∈ found.filter fun s => s.place = t.place := hhere ▸ List.mem_cons_self
      exact ⟨s, mem_filter_place.mp hs⟩
  · rintro ⟨s, hs, rfl⟩
    have hmem : s ∈ found.filter fun u => u.place = s.place := mem_filter_place.mpr ⟨hs, rfl⟩
    cases hhere : found.filter (fun u => u.place = s.place) with
    | nil => simp [hhere] at hmem
    | cons first rest =>
      have hfirst : first ∈ found.filter fun u => u.place = s.place :=
        hhere ▸ List.mem_cons_self
      have hplace : first.place = s.place := (mem_filter_place.mp hfirst).2
      refine ⟨{ first with entries := (first :: rest).flatMap Setting.entries },
        mem_arranged.mpr ?_, hplace⟩
      have hsame : Setting.place
          { first with entries := (first :: rest).flatMap Setting.entries } = s.place := hplace
      rw [hsame, hhere, joined]

section Gaps

def indexesOf (name : String) (all : List Setting) : List Nat :=
  (all.filter fun s => s.sectionName = name).map Setting.index

/-- The indexes of each section are 0, 1 and so on. -/
def Consecutive (all : List Setting) : Prop :=
  ∀ name, indexesOf name all = List.range (indexesOf name all).length

theorem mem_indexesOf {name : String} {all : List Setting} {index : Nat} :
    index ∈ indexesOf name all ↔ ∃ s ∈ all, s.place = toLex (name, index) := by
  simp [indexesOf, Setting.place, and_assoc]

theorem indexesOf_concat (name : String) (all : List Setting) (s : Setting) :
    indexesOf name (all ++ [s]) =
      indexesOf name all ++ if s.sectionName = name then [s.index] else [] := by
  rw [indexesOf, List.filter_append, List.map_append, ← indexesOf]
  by_cases h : s.sectionName = name <;> simp [h]

theorem Consecutive.concat {all : List Setting} (h : Consecutive all) {s : Setting}
    (hs : s.index = (indexesOf s.sectionName all).length) : Consecutive (all ++ [s]) := by
  intro name
  rw [indexesOf_concat]
  split
  · rename_i hname
    rw [hs, hname, List.length_append, List.length_singleton, List.range_succ, ← h name]
  · rw [List.append_nil]
    exact h name

theorem Consecutive.exists_below {all : List Setting} (h : Consecutive all) {s : Setting}
    (hs : s ∈ all) {j : Nat} (hj : j < s.index) :
    ∃ t ∈ all, t.place = toLex (s.sectionName, j) := by
  have hindex : s.index ∈ indexesOf s.sectionName all := mem_indexesOf.mpr ⟨s, hs, rfl⟩
  rw [← mem_indexesOf, h s.sectionName, List.mem_range]
  rw [h s.sectionName, List.mem_range] at hindex
  omega

/-- The failure at a setting whose index is not the number of those before it. -/
def skipped (before : List Setting) (s : Setting) : Error :=
  .invalidVariable s.source
    (.skipsIndex s.sectionName s.index (indexesOf s.sectionName before).length)

/-- The settings up to a gap are consecutive, or all of them are. -/
theorem firstGap?_append {done rest : List Setting} {current : String} {next : Nat}
    (h : Ordered (done ++ rest)) (hdone : Consecutive done)
    (hnext : ∀ s ∈ rest, current ≤ s.sectionName ∧ (indexesOf s.sectionName done).length =
      if s.sectionName = current then next else 0) :
    (firstGap? current next rest = none ∧ Consecutive (done ++ rest)) ∨
      ∃ before s after, done ++ rest = before ++ s :: after ∧ Consecutive before ∧
        s.index ≠ (indexesOf s.sectionName before).length ∧
        firstGap? current next rest = some (skipped before s) := by
  induction rest generalizing done current next with
  | nil =>
    rw [List.append_nil]
    exact Or.inl ⟨rfl, hdone⟩
  | cons s rest ih =>
    obtain ⟨⟨hcurrent, hlength⟩, hrest⟩ := List.forall_mem_cons.mp hnext
    rw [firstGap?, ← hlength]
    split
    · rename_i hindex
      have hshift : done ++ s :: rest = done ++ [s] ++ rest := by simp
      rw [hshift] at h ⊢
      refine ih h (hdone.concat hindex) fun t ht => ?_
      have hplace : s.place < t.place := by
        have hafter := (List.pairwise_append.mp h).2.2
        exact hafter s (by simp) t ht
      have hle : s.sectionName ≤ t.sectionName := by
        rw [Setting.place, Setting.place, Prod.Lex.toLex_lt_toLex] at hplace
        rcases hplace with hlt | ⟨heq, -⟩
        · exact le_of_lt hlt
        · exact le_of_eq heq
      refine ⟨hle, ?_⟩
      rw [indexesOf_concat]
      by_cases hname : t.sectionName = s.sectionName
      · rw [if_pos hname.symm, if_pos hname, hname, List.length_append, List.length_singleton]
      · -- a section that comes later has no settings yet
        have hlater : t.sectionName ≠ current :=
          fun heq => hname (le_antisymm (heq ▸ hcurrent) hle)
        rw [if_neg (Ne.symm hname), if_neg hname, List.append_nil, (hrest t ht).2, if_neg hlater]
    · rename_i hindex
      exact Or.inr ⟨done, s, rest, rfl, hdone, hindex, rfl⟩

theorem firstGap?_cases {all : List Setting} (h : Ordered all) :
    (firstGap? "" 0 all = none ∧ Consecutive all) ∨
      ∃ before s after, all = before ++ s :: after ∧ Consecutive before ∧
        s.index ≠ (indexesOf s.sectionName before).length ∧
        firstGap? "" 0 all = some (skipped before s) := by
  refine @firstGap?_append [] all "" 0 h (fun _ => rfl) fun s _ => ⟨?_, ?_⟩
  · rw [String.le_iff_toList_le]
    exact not_lt.mp (List.not_lt_nil s.sectionName.toList)
  · simp [indexesOf]

section Gap
variable {before after : List Setting} {s : Setting} (h : Ordered (before ++ s :: after))
  (hbefore : Consecutive before) (hgap : s.index ≠ (indexesOf s.sectionName before).length)
include h hbefore hgap

theorem length_indexesOf_lt : (indexesOf s.sectionName before).length < s.index := by
  by_contra hle
  have hmem : s.index ∈ indexesOf s.sectionName before := by
    rw [hbefore s.sectionName, List.mem_range]
    omega
  obtain ⟨t, ht, hplace⟩ := mem_indexesOf.mp hmem
  have hlt : t.place < s.place :=
    (List.pairwise_append.mp h).2.2 t ht s List.mem_cons_self
  exact hlt.ne hplace

theorem place_ne_of_mem {t : Setting} (ht : t ∈ before ++ s :: after) :
    t.place ≠ toLex (s.sectionName, (indexesOf s.sectionName before).length) := by
  intro hplace
  have hlt := length_indexesOf_lt h hbefore hgap
  rcases List.mem_append.mp ht with ht | ht
  · have hmem := mem_indexesOf.mpr ⟨t, ht, hplace⟩
    rw [hbefore s.sectionName, List.mem_range, List.length_range] at hmem
    omega
  · have hle : s.place ≤ t.place := le_of_mem_cons (List.pairwise_append.mp h).2.1 ht
    rw [hplace, Setting.place, Prod.Lex.toLex_le_toLex] at hle
    simp only [lt_self_iff_false, false_or, true_and] at hle
    omega

end Gap

end Gaps

end UnitFiles.Environment

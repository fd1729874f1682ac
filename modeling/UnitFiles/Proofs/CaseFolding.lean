import UnitFiles.Text.Letters

/-! Lowercasing settles after one pass, so that names are the same exactly when their lowercase
forms are. Keys of groups and specs, which are lowercase forms, select what the names select. -/
namespace UnitFiles.Text

/-- A character that lowering leaves as it is, wherever it stands. -/
def IsLower (c : Char) : Prop := c ≠ 'Σ' ∧ lowerChar c = [c]

instance (c : Char) : Decidable (IsLower c) := inferInstanceAs (Decidable (_ ∧ _))

theorem forall_ascii {P : Char → Prop} (table : ∀ n < 0x80, P (Char.ofNat n)) {c : Char}
    (h : c.toNat < 0x80) : P c := by
  rw [← Char.ofNat_toNat c]
  exact table c.toNat h

theorem isLower_toLower {c : Char} (h : c.toNat < 0x80) : IsLower c.toLower :=
  forall_ascii (P := fun c => IsLower c.toLower) (by decide) h

/-- What lowering writes for the characters with rules of their own, and the character that stands
for an invalid number. -/
theorem isLower_special : IsLower 'i' ∧ IsLower '\u0307' ∧ IsLower 'ς' ∧ IsLower 'σ' ∧
    IsLower '\x00' := by
  decide

/-- What lowering changes: the runs of the table, and as runs of their own the ASCII capitals and
the one character that lowers to two. -/
def changedRuns : List CaseRun := ⟨0x41, 0x5A, 1, 0x61⟩ :: ⟨0x130, 0x130, 1, 0x69⟩ :: lowercaseRuns

theorem not_uncovered_sigma : ¬∀ q ∈ lowercaseRuns, q.covers 'Σ'.toNat = false := by
  decide

theorem toLower_eq_self {c : Char} (h : c.toNat < 0x80)
    (hcapital : CaseRun.covers ⟨0x41, 0x5A, 1, 0x61⟩ c.toNat = false) : c.toLower = c :=
  forall_ascii (P := fun c => CaseRun.covers ⟨0x41, 0x5A, 1, 0x61⟩ c.toNat = false →
    c.toLower = c) (by decide) h hcapital

/-- No target of `r` is covered by `q`: they lie apart, or `q` takes every second character and
the targets are the ones in between. -/
def CaseRun.misses (r q : CaseRun) : Bool :=
  Nat.blt (r.apply r.last) q.first || Nat.blt q.last r.target ||
    ((r.step.beq 2 || r.first.beq r.last) && q.step.beq 2 && ((r.target + q.first) % 2).beq 1)

theorem CaseRun.covers_iff {r : CaseRun} {n : Nat} :
    r.covers n = true ↔ r.first ≤ n ∧ n ≤ r.last ∧ (n - r.first) % r.step = 0 := by
  simp [covers, and_assoc]

theorem CaseRun.covers_apply_of_misses {r q : CaseRun} {n : Nat} (h : r.misses q = true)
    (hn : r.covers n = true) : q.covers (r.apply n) = false := by
  obtain ⟨hfirst, hlast, hstep⟩ := covers_iff.mp hn
  rw [← Bool.not_eq_true, covers_iff]
  rintro ⟨qfirst, qlast, qstep⟩
  simp only [misses, apply, Bool.or_eq_true, Bool.and_eq_true, Nat.blt_eq, Nat.beq_eq] at *
  rcases h with (h | h) | ⟨⟨hr, hq⟩, hodd⟩
  · omega
  · omega
  · have heven : (n - r.first) % 2 = 0 := by
      rcases hr with hr | hr
      · rwa [hr] at hstep
      · omega
    rw [hq] at qstep
    omega

theorem lowercaseRuns_miss {r q : CaseRun} (hr : r ∈ lowercaseRuns) (hq : q ∈ changedRuns) :
    r.misses q = true := by
  have table : (lowercaseRuns.all fun r => changedRuns.all r.misses) = true := by decide +kernel
  exact List.all_eq_true.mp (List.all_eq_true.mp table r hr) q hq

theorem isLower_of_uncovered {c : Char} (h : ∀ q ∈ changedRuns, q.covers c.toNat = false) :
    IsLower c := by
  simp only [changedRuns, List.forall_mem_cons] at h
  obtain ⟨hcapital, hdot, hrun⟩ := h
  constructor
  · rintro rfl
    exact not_uncovered_sigma hrun
  · rw [lowerChar]
    split
    · rename_i hascii
      rw [toLower_eq_self hascii hcapital]
    · have hne : c.toNat ≠ 0x130 := by
        intro he
        rw [he] at hdot
        exact absurd hdot (by decide)
      have hnone : lowercaseRuns.find? (·.covers c.toNat) = none := by
        rw [List.find?_eq_none]
        exact fun q hq => by simp [hrun q hq]
      rw [if_neg hne, hnone]

theorem isLower_apply {r : CaseRun} {n : Nat} (hr : r ∈ lowercaseRuns) (hn : r.covers n = true) :
    IsLower (Char.ofNat (r.apply n)) := by
  by_cases hvalid : (r.apply n).isValidChar
  · apply isLower_of_uncovered
    intro q hq
    have htoNat : (Char.ofNat (r.apply n)).toNat = r.apply n := by
      rw [Char.ofNat, dif_pos hvalid]
      rfl
    rw [htoNat]
    exact CaseRun.covers_apply_of_misses (lowercaseRuns_miss hr hq) hn
  · rw [Char.ofNat, dif_neg hvalid]
    obtain ⟨-, -, -, -, hinvalid⟩ := isLower_special
    exact hinvalid

theorem isLower_of_mem_lowerChar {c d : Char} (h : d ∈ lowerChar c) (hc : c ≠ 'Σ') :
    IsLower d := by
  simp only [lowerChar] at h
  split at h
  · rename_i hascii
    rw [List.mem_singleton.mp h]
    exact isLower_toLower hascii
  · split at h
    · obtain ⟨hi, hdot, -⟩ := isLower_special
      simp only [List.mem_cons, List.not_mem_nil, or_false] at h
      rcases h with rfl | rfl
      · exact hi
      · exact hdot
    · split at h
      · rename_i r hfind
        rw [List.mem_singleton.mp h]
        exact isLower_apply (List.mem_of_find?_eq_some hfind)
          (List.find?_some (p := fun q => CaseRun.covers q c.toNat) hfind)
      · rename_i hascii hdot _ hfind
        rw [List.mem_singleton.mp h]
        exact ⟨hc, by simp [lowerChar, hascii, hdot, hfind]⟩

theorem isLower_of_mem_lowerAfter {before s : List Char} {d : Char}
    (h : d ∈ lowerAfter before s) : IsLower d := by
  induction s generalizing before with
  | nil => simp [lowerAfter] at h
  | cons c rest ih =>
    rw [lowerAfter, List.mem_append] at h
    rcases h with h | h
    · obtain ⟨-, -, hfinal, hsigma, -⟩ := isLower_special
      split at h
      · split at h <;> rw [List.mem_singleton.mp h]
        · exact hfinal
        · exact hsigma
      · rename_i hc
        exact isLower_of_mem_lowerChar h hc
    · exact ih h

theorem lowerAfter_eq_self {before s : List Char} (h : ∀ c ∈ s, IsLower c) :
    lowerAfter before s = s := by
  induction s generalizing before with
  | nil => rfl
  | cons c rest ih =>
    obtain ⟨hsigma, hlower⟩ := h c List.mem_cons_self
    rw [lowerAfter, if_neg hsigma, hlower, ih fun d hd => h d (List.mem_cons_of_mem c hd)]
    rfl

@[simp] theorem lower_lower (s : List Char) : lower (lower s) = lower s :=
  lowerAfter_eq_self fun _ h => isLower_of_mem_lowerAfter h

@[simp] theorem fold_fold (name : String) : fold (fold name) = fold name := by
  simp [fold]

theorem lowerAfter_ascii {before s : List Char} (h : isAscii s = true) :
    lowerAfter before s = s.map Char.toLower := by
  induction s generalizing before with
  | nil => rfl
  | cons c rest ih =>
    simp only [isAscii, List.all_cons, Bool.and_eq_true, decide_eq_true_eq] at h
    have hsigma : c ≠ 'Σ' := by
      rintro rfl
      exact absurd h.1 (by decide)
    rw [lowerAfter, if_neg hsigma, lowerChar, if_pos h.1, ih h.2]
    rfl

theorem sameAscii_iff {a b : List Char} :
    sameAscii a b = true ↔ a.map Char.toLower = b.map Char.toLower := by
  induction a generalizing b with
  | nil => cases b <;> simp [sameAscii]
  | cons c rest ih => cases b <;> simp [sameAscii, ih]

/-- The comparison of ASCII names agrees with the tables. -/
theorem sameName_iff {a b : String} : sameName a b = true ↔ fold a = fold b := by
  have hfold : fold a = fold b ↔ lower a.toList = lower b.toList := by
    rw [fold, fold, String.ofList_inj]
  rw [hfold, sameName]
  split
  · rename_i hascii
    rw [Bool.and_eq_true] at hascii
    rw [sameAscii_iff, lower, lower, lowerAfter_ascii hascii.1, lowerAfter_ascii hascii.2]
  · exact beq_iff_eq

theorem sameName_eq (a b : String) : sameName a b = (fold a == fold b) := by
  rw [Bool.eq_iff_iff, sameName_iff, beq_iff_eq]

@[simp] theorem sameName_refl (a : String) : sameName a a = true := sameName_iff.mpr rfl

theorem sameName_comm (a b : String) : sameName a b = sameName b a := by
  rw [sameName_eq, sameName_eq, Bool.beq_comm]

@[simp] theorem sameName_fold (a b : String) : sameName a (fold b) = sameName a b := by
  rw [sameName_eq, sameName_eq, fold_fold]

theorem sameName_congr {a b : String} (h : sameName a b = true) (c : String) :
    sameName c a = sameName c b := by
  rw [sameName_eq, sameName_eq, sameName_iff.mp h]

end UnitFiles.Text

import Mathlib.Algebra.Order.Floor.Semifield
import Mathlib.Data.Rat.Floor
import Mathlib.Tactic.FieldSimp
import Mathlib.Tactic.Linarith
import UnitFiles.Proofs.DurationNotation

/-! What becomes of the digits after the point of a duration. Eighteen of them count. A unit of a
second or less is a power of ten, and the other digits are below a nanosecond then. A minute and an
hour are none: one nanosecond may be lost for each number of them, exactly when it is reached with
the other digits only. -/
namespace UnitFiles.Duration
open Number

def fractionValue (digits : List Char) : ℚ := Nat.ofDigitChars 10 digits 0 / 10 ^ digits.length

structure Part where
  whole : List Char
  fraction : List Char
  unit : Nat

namespace Part

/-- The nanoseconds that are read. -/
def counted (p : Part) : Nat := nanosecondsOf p.whole p.fraction p.unit

def nanoseconds (p : Part) : Nat :=
  Nat.ofDigitChars 10 p.whole 0 * p.unit + ⌊fractionValue p.fraction * p.unit⌋₊

/-- The first eighteen digits do not reach a nanosecond that all of them reach. -/
def CutShort (p : Part) : Prop :=
  ∃ n : Nat, fractionValue (p.fraction.take 18) * p.unit < n ∧
    n ≤ fractionValue p.fraction * p.unit

/-- The ways to write a part. It has a digit on one side of the point at least. -/
inductive Spells : Part → List Char → Prop
  | whole {digits unit : List Char} {size : Nat} (decimal : ∀ c ∈ digits, c.isDigit = true)
      (digit : digits ≠ []) (known : (unit, size) ∈ units) :
      Spells ⟨digits, [], size⟩ (digits ++ unit)
  | pointed {whole fraction unit : List Char} {size : Nat}
      (decimal : ∀ c ∈ whole ++ fraction, c.isDigit = true) (digit : whole ++ fraction ≠ [])
      (known : (unit, size) ∈ units) :
      Spells ⟨whole, fraction, size⟩ (whole ++ '.' :: (fraction ++ unit))

end Part

inductive SpellsRow : List Part → List Char → Prop
  | nil : SpellsRow [] []
  | cons {p : Part} {ps : List Part} {s t : List Char} (first : p.Spells s)
      (rest : SpellsRow ps t) : SpellsRow (p :: ps) (s ++ t)

def signs : List (List Char) := [[], ['+'], ['-']]

/-- The parts of a duration. A bare zero has none. -/
inductive ComposedOf : List Part → List Char → Prop
  | zero {sign : List Char} (signed : sign ∈ signs) : ComposedOf [] (sign ++ ['0'])
  | parts {sign s t : List Char} {p : Part} {ps : List Part} (signed : sign ∈ signs)
      (first : p.Spells s) (rest : SpellsRow ps t) : ComposedOf (p :: ps) (sign ++ (s ++ t))

section Values
variable {digits : List Char}

theorem ofDigitChars_lt_pow (h : ∀ c ∈ digits, c.isDigit = true) :
    Nat.ofDigitChars 10 digits 0 < 10 ^ digits.length := by
  induction digits with
  | nil => decide
  | cons c rest ih =>
    obtain ⟨hc, hrest⟩ := List.forall_mem_cons.mp h
    have hbounds : 48 ≤ c.toNat ∧ c.toNat ≤ 57 := Char.isDigit_iff_toNat.mp hc
    have hzero : '0'.toNat = 48 := rfl
    have hdigit : 10 ^ rest.length * (c.toNat - '0'.toNat) ≤ 10 ^ rest.length * 9 :=
      Nat.mul_le_mul_left _ (by omega)
    have hlast := ih hrest
    rw [Nat.ofDigitChars_cons, Nat.ofDigitChars_eq_ofDigitChars_zero, Nat.mul_zero, Nat.zero_add,
      List.length_cons, Nat.pow_succ]
    omega

theorem fractionValue_nonneg (digits : List Char) : 0 ≤ fractionValue digits := by
  rw [fractionValue]
  positivity

theorem fractionValue_lt_one (h : ∀ c ∈ digits, c.isDigit = true) : fractionValue digits < 1 := by
  have hpow : (0 : ℚ) < 10 ^ digits.length := by positivity
  rw [fractionValue, div_lt_one hpow]
  exact_mod_cast ofDigitChars_lt_pow h

theorem fractionValue_append (front rest : List Char) :
    fractionValue (front ++ rest) =
      fractionValue front + fractionValue rest / 10 ^ front.length := by
  rw [fractionValue, fractionValue, fractionValue, Nat.ofDigitChars_append,
    Nat.ofDigitChars_eq_ofDigitChars_zero, List.length_append, pow_add]
  push_cast
  field_simp

theorem fractionValue_take_le (k : Nat) (digits : List Char) :
    fractionValue (digits.take k) ≤ fractionValue digits := by
  have hrest : 0 ≤ fractionValue (digits.drop k) / 10 ^ (digits.take k).length :=
    div_nonneg (fractionValue_nonneg _) (by positivity)
  conv_rhs => rw [← List.take_append_drop k digits, fractionValue_append]
  linarith

theorem fractionValue_lt_take (h : ∀ c ∈ digits, c.isDigit = true) (k : Nat) :
    fractionValue digits < fractionValue (digits.take k) + 1 / 10 ^ k := by
  rcases Nat.le_total digits.length k with hshort | hlong
  · rw [List.take_of_length_le hshort]
    exact lt_add_of_pos_right _ (by positivity)
  · have hlength : (digits.take k).length = k := List.length_take_of_le hlong
    have hrest : fractionValue (digits.drop k) < 1 :=
      fractionValue_lt_one fun c hc => h c (List.mem_of_mem_drop hc)
    have hbelow : fractionValue (digits.drop k) / 10 ^ k < 1 / 10 ^ k :=
      div_lt_div_of_pos_right hrest (by positivity)
    conv_lhs => rw [← List.take_append_drop k digits, fractionValue_append, hlength]
    linarith

end Values

namespace Part
variable {p : Part}

theorem counted_eq (p : Part) :
    p.counted = Nat.ofDigitChars 10 p.whole 0 * p.unit +
      ⌊fractionValue (p.fraction.take 18) * p.unit⌋₊ := by
  have hfloor : fractionValue (p.fraction.take 18) * p.unit =
      ((Nat.ofDigitChars 10 (p.fraction.take 18) 0 * p.unit : Nat) : ℚ) /
        ((10 ^ (p.fraction.take 18).length : Nat) : ℚ) := by
    rw [fractionValue]
    push_cast
    ring
  rw [counted, nanosecondsOf, hfloor, Nat.floor_div_eq_div]

theorem cutShort_iff : p.CutShort ↔ p.counted < p.nanoseconds := by
  have hkept : 0 ≤ fractionValue (p.fraction.take 18) * p.unit :=
    mul_nonneg (fractionValue_nonneg _) (Nat.cast_nonneg _)
  have hall : 0 ≤ fractionValue p.fraction * p.unit :=
    mul_nonneg (fractionValue_nonneg _) (Nat.cast_nonneg _)
  rw [counted_eq, nanoseconds, Nat.add_lt_add_iff_left, CutShort]
  constructor
  · rintro ⟨n, hlow, hhigh⟩
    exact ((Nat.floor_lt hkept).mpr hlow).trans_le ((Nat.le_floor_iff hall).mpr hhigh)
  · intro h
    exact ⟨_, (Nat.floor_lt hkept).mp h, Nat.floor_le hall⟩

instance : DecidablePred CutShort := fun _ => decidable_of_iff _ cutShort_iff.symm

theorem counted_le (p : Part) : p.counted ≤ p.nanoseconds := by
  rw [counted_eq, nanoseconds]
  refine Nat.add_le_add_left (Nat.floor_le_floor ?_) _
  exact mul_le_mul_of_nonneg_right (fractionValue_take_le 18 p.fraction) (Nat.cast_nonneg _)

/-- The share of a unit that is lost is less than that of one in the eighteenth place. -/
theorem share_lt (h : ∀ c ∈ p.fraction, c.isDigit = true) (hunit : 0 < p.unit) :
    fractionValue p.fraction * p.unit <
      fractionValue (p.fraction.take 18) * p.unit + p.unit / 10 ^ 18 := by
  have hpos : (0 : ℚ) < p.unit := by exact_mod_cast hunit
  calc fractionValue p.fraction * p.unit
      < (fractionValue (p.fraction.take 18) + 1 / 10 ^ 18) * p.unit :=
        mul_lt_mul_of_pos_right (fractionValue_lt_take h 18) hpos
    _ = fractionValue (p.fraction.take 18) * p.unit + p.unit / 10 ^ 18 := by ring

theorem nanoseconds_le (h : ∀ c ∈ p.fraction, c.isDigit = true) (hunit : 0 < p.unit)
    (hsmall : p.unit ≤ 10 ^ 18) : p.nanoseconds ≤ p.counted + 1 := by
  have hkept : 0 ≤ fractionValue (p.fraction.take 18) * p.unit :=
    mul_nonneg (fractionValue_nonneg _) (Nat.cast_nonneg _)
  have hone : (p.unit : ℚ) / 10 ^ 18 ≤ 1 := by
    rw [div_le_one (by positivity)]
    exact_mod_cast hsmall
  rw [counted_eq, nanoseconds, Nat.add_assoc, Nat.add_le_add_iff_left, ← Nat.floor_add_one hkept]
  exact Nat.floor_le_floor ((share_lt h hunit).le.trans (by linarith))

theorem nanoseconds_eq (h : ∀ c ∈ p.fraction, c.isDigit = true) (hunit : 0 < p.unit)
    (hsmall : p.unit ≤ 10 ^ 18) :
    p.nanoseconds = p.counted + if p.CutShort then 1 else 0 := by
  have hle := p.counted_le
  have hge := nanoseconds_le h hunit hsmall
  split
  · rename_i hcut
    have hlost := cutShort_iff.mp hcut
    omega
  · rename_i hcut
    rw [cutShort_iff] at hcut
    omega

theorem not_cutShort_of_length_le (h : p.fraction.length ≤ 18) : ¬p.CutShort := by
  rintro ⟨n, hlow, hhigh⟩
  rw [List.take_of_length_le h] at hlow
  exact absurd (hlow.trans_le hhigh) (lt_irrefl _)

/-- With eighteen digits or more the counted share is a whole number of steps of one in the
eighteenth place. Where a nanosecond is a whole number of these as well, none lies in between. -/
theorem not_cutShort_of_dvd (h : ∀ c ∈ p.fraction, c.isDigit = true) (hunit : 0 < p.unit)
    (hdvd : p.unit ∣ 10 ^ 18) : ¬p.CutShort := by
  rintro ⟨n, hlow, hhigh⟩
  rcases Nat.le_total p.fraction.length 18 with hshort | hlong
  · exact not_cutShort_of_length_le hshort ⟨n, hlow, hhigh⟩
  · obtain ⟨k, hk⟩ := hdvd
    have hpow : (p.unit : ℚ) * k = 10 ^ 18 := by exact_mod_cast hk.symm
    have hpos : (0 : ℚ) < k := by
      rw [Nat.cast_pos]
      exact Nat.pos_of_mul_pos_left (hk ▸ Nat.pow_pos (by decide))
    have hlength : (p.fraction.take 18).length = 18 := List.length_take_of_le hlong
    have hsteps : fractionValue (p.fraction.take 18) * p.unit * k =
        Nat.ofDigitChars 10 (p.fraction.take 18) 0 := by
      rw [mul_assoc, hpow, fractionValue, hlength]
      field_simp
    have hstep : (p.unit : ℚ) / 10 ^ 18 * k = 1 := by
      rw [div_mul_eq_mul_div, hpow, div_self (by positivity)]
    have hbelow := mul_lt_mul_of_pos_right (hhigh.trans_lt (share_lt h hunit)) hpos
    have habove := mul_lt_mul_of_pos_right hlow hpos
    rw [add_mul, hsteps, hstep] at hbelow
    rw [hsteps] at habove
    norm_cast at hbelow habove
    omega

theorem Spells.spec {s : List Char} (h : p.Spells s) :
    (∀ c ∈ p.fraction, c.isDigit = true) ∧ ∃ unit, (unit, p.unit) ∈ units := by
  cases h with
  | whole _ _ known => exact ⟨by simp, _, known⟩
  | pointed decimal _ known => exact ⟨(List.forall_mem_append.mp decimal).2, _, known⟩

theorem Spells.nanoseconds_eq {s : List Char} (h : p.Spells s) :
    p.nanoseconds = p.counted + if p.CutShort then 1 else 0 := by
  obtain ⟨hdecimal, unit, known⟩ := h.spec
  obtain ⟨-, -, hpos, hle⟩ := mem_units known
  exact Part.nanoseconds_eq hdecimal hpos (hle.trans (by decide))

/-- Only minutes and hours are cut short, with more than eighteen digits. -/
theorem Spells.of_cutShort {s : List Char} (h : p.Spells s) (hcut : p.CutShort) :
    18 < p.fraction.length ∧ (p.unit = 60_000_000_000 ∨ p.unit = 3_600_000_000_000) := by
  obtain ⟨hdecimal, unit, known⟩ := h.spec
  have hsizes : ∀ q ∈ units, q.2 ∣ 10 ^ 18 ∨ q.2 = 60_000_000_000 ∨ q.2 = 3_600_000_000_000 := by
    decide
  refine ⟨?_, (hsizes _ known).resolve_left fun hdvd => ?_⟩
  · by_contra hshort
    exact not_cutShort_of_length_le (not_lt.mp hshort) hcut
  · exact not_cutShort_of_dvd hdecimal (mem_units known).2.2.1 hdvd hcut

theorem Spells.denotes {s : List Char} (h : p.Spells s) : DenotesComponent s p.counted := by
  cases h with
  | whole decimal digit known => exact .whole decimal digit known
  | pointed decimal digit known => exact .pointed decimal digit known

end Part

section Rows
variable {s : List Char} {n : Nat} {ps : List Part}

theorem DenotesComponent.exists_part (h : DenotesComponent s n) :
    ∃ p : Part, p.Spells s ∧ p.counted = n := by
  cases h with
  | whole decimal digit known => exact ⟨_, .whole decimal digit known, rfl⟩
  | pointed decimal digit known => exact ⟨_, .pointed decimal digit known, rfl⟩

theorem SpellsRow.denotes (h : SpellsRow ps s) : DenotesSum s (ps.map Part.counted).sum := by
  induction h with
  | nil => exact .nil
  | cons first _ ih =>
    rw [List.map_cons, List.sum_cons]
    exact .cons first.denotes ih

theorem DenotesSum.exists_row (h : DenotesSum s n) : ∃ ps, SpellsRow ps s := by
  induction h with
  | nil => exact ⟨[], .nil⟩
  | cons first _ ih =>
    obtain ⟨p, hp, -⟩ := first.exists_part
    obtain ⟨ps, hps⟩ := ih
    exact ⟨p :: ps, .cons hp hps⟩

theorem SpellsRow.exists_spells (h : SpellsRow ps s) : ∀ p ∈ ps, ∃ t, p.Spells t := by
  induction h with
  | nil => exact fun p hp => nomatch hp
  | cons first _ ih => exact List.forall_mem_cons.mpr ⟨⟨_, first⟩, ih⟩

theorem takeSign_signed {sign : List Char} (signed : sign ∈ signs) (h : DenotesLength s n) :
    (takeSign (sign ++ s)).2 = s := by
  simp only [signs, List.mem_cons, List.not_mem_nil, or_false] at signed
  rcases signed with rfl | rfl | rfl
  · obtain ⟨hminus, hplus⟩ := h.head?_ne_sign
    rw [List.nil_append, takeSign_unsigned hminus hplus]
  · rfl
  · rfl

theorem ComposedOf.denotes (h : ComposedOf ps s) :
    DenotesLength (takeSign s).2 (ps.map Part.counted).sum := by
  cases h with
  | zero signed =>
    rw [takeSign_signed signed .zero]
    exact .zero
  | parts signed first rest =>
    have hlength : DenotesLength _ _ := .components first.denotes rest.denotes
    rw [takeSign_signed signed hlength]
    exact hlength

theorem ComposedOf.exists_spells (h : ComposedOf ps s) : ∀ p ∈ ps, ∃ t, p.Spells t := by
  cases h with
  | zero _ => exact fun p hp => nomatch hp
  | parts _ first rest => exact List.forall_mem_cons.mpr ⟨⟨_, first⟩, rest.exists_spells⟩

/-- A text is put together from the parts that were counted for it. -/
theorem ComposedOf.sum_counted (h : ComposedOf ps s) (hn : DenotesDuration s n) :
    (ps.map Part.counted).sum = n :=
  DenotesDuration.unique (.unsigned h.denotes) (.unsigned (denotesDuration_iff.mp hn).1)

theorem exists_sign (s : List Char) : ∃ sign ∈ signs, sign ++ (takeSign s).2 = s := by
  unfold takeSign
  split
  · exact ⟨['-'], by decide, rfl⟩
  · exact ⟨['+'], by decide, rfl⟩
  · exact ⟨[], by decide, rfl⟩

theorem DenotesDuration.exists_parts (h : DenotesDuration s n) : ∃ ps, ComposedOf ps s := by
  obtain ⟨sign, signed, hs⟩ := exists_sign s
  rw [← hs]
  have hlength := (denotesDuration_iff.mp h).1
  generalize (takeSign s).2 = body at hlength
  cases hlength with
  | zero => exact ⟨[], .zero signed⟩
  | components first rest =>
    obtain ⟨p, hp, -⟩ := first.exists_part
    obtain ⟨ps, hps⟩ := rest.exists_row
    exact ⟨p :: ps, .parts signed hp hps⟩

/-- All digits of all parts together stand for as many nanoseconds more as parts are cut short. -/
theorem sum_nanoseconds (h : ∀ p ∈ ps, ∃ t, p.Spells t) :
    (ps.map Part.nanoseconds).sum = (ps.map Part.counted).sum + ps.countP (·.CutShort) := by
  induction ps with
  | nil => rfl
  | cons p rest ih =>
    obtain ⟨⟨t, hp⟩, hrest⟩ := List.forall_mem_cons.mp h
    simp only [List.map_cons, List.sum_cons, List.countP_cons, ih hrest, hp.nanoseconds_eq,
      decide_eq_true_eq]
    omega

end Rows

/-- A text that is read is the duration of its parts with all their digits, less one nanosecond for
each part that is cut short. Only minutes and hours with more than eighteen digits can be. -/
theorem readDuration_fractions {raw : String} {d : Duration} (h : readDuration raw = .ok d) :
    (∃ parts, ComposedOf parts raw.toList) ∧ ∀ parts, ComposedOf parts raw.toList →
      d.nanoseconds + parts.countP (·.CutShort) = (parts.map Part.nanoseconds).sum ∧
      (d.nanoseconds = (parts.map Part.nanoseconds).sum ↔ ∀ p ∈ parts, ¬p.CutShort) ∧
      ∀ p ∈ parts, p.CutShort →
        18 < p.fraction.length ∧ (p.unit = 60_000_000_000 ∨ p.unit = 3_600_000_000_000) := by
  have hread : DenotesDuration raw.toList d.nanoseconds := by
    rw [← read?_eq_some_iff]
    rw [readDuration] at h
    cases hread : read? raw.toList with
    | none =>
      rw [hread] at h
      cases h
    | some found =>
      rw [hread] at h
      cases h
      rfl
  refine ⟨hread.exists_parts, fun parts hparts => ?_⟩
  have hspells := hparts.exists_spells
  have hsum := sum_nanoseconds hspells
  rw [hparts.sum_counted hread] at hsum
  refine ⟨hsum.symm, ?_, fun p hp hcut => ?_⟩
  · rw [hsum, Nat.left_eq_add, List.countP_eq_zero]
    simp only [decide_eq_true_eq]
  · obtain ⟨t, ht⟩ := hspells p hp
    exact ht.of_cutShort hcut

/-- Just more than a nanosecond. The eighteen digits that count are just less. -/
def sliver : Part := ⟨['0'], "00000000001666666667".toList, 60_000_000_000⟩

def oneAndHalf : Part := ⟨['1'], ['5'], 1_000_000_000⟩

theorem spells_sliver : sliver.Spells "0.00000000001666666667m".toList :=
  @Part.Spells.pointed ['0'] "00000000001666666667".toList ['m'] 60_000_000_000
    (List.all_eq_true.mp (by decide)) (by decide) (by decide)

theorem spells_oneAndHalf : oneAndHalf.Spells "1.5s".toList :=
  @Part.Spells.pointed ['1'] ['5'] ['s'] 1_000_000_000 (List.all_eq_true.mp (by decide))
    (by decide) (by decide)

/-- Of two parts the second one is cut short. -/
theorem readDuration_fractions_sliver :
    readDuration "+1.5s0.00000000001666666667m" = .ok { nanoseconds := 1_500_000_000 } ∧
      ComposedOf [oneAndHalf, sliver] "+1.5s0.00000000001666666667m".toList ∧
      1_500_000_000 + [oneAndHalf, sliver].countP (·.CutShort) =
        ([oneAndHalf, sliver].map Part.nanoseconds).sum ∧ sliver.CutShort := by
  have hread : readDuration "+1.5s0.00000000001666666667m" =
      .ok { nanoseconds := 1_500_000_000 } := by decide +kernel
  have hparts : ComposedOf [oneAndHalf, sliver] "+1.5s0.00000000001666666667m".toList :=
    @ComposedOf.parts ['+'] _ _ _ _ (by decide) spells_oneAndHalf (.cons spells_sliver .nil)
  have hcut : sliver.CutShort := by decide +kernel
  exact ⟨hread, hparts, ((readDuration_fractions hread).2 _ hparts).1, hcut⟩

/-- A nanosecond and a little is read as no time at all. -/
theorem readDuration_loses_nanosecond :
    readDuration "0.00000000001666666667m" = .ok zero ∧
      ComposedOf [sliver] "0.00000000001666666667m".toList ∧
      ([sliver].map Part.nanoseconds).sum = 1 ∧
      zero.nanoseconds ≠ ([sliver].map Part.nanoseconds).sum := by
  have hone : ([sliver].map Part.nanoseconds).sum = 1 := by decide +kernel
  refine ⟨by decide +kernel, ?_, hone, ?_⟩
  · exact @ComposedOf.parts [] _ _ _ _ (by decide) spells_sliver .nil
  · rw [hone]
    decide

end UnitFiles.Duration

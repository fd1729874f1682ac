import Mathlib.Data.List.TakeWhile
import UnitFiles.Proofs.Numerals
import UnitFiles.Value

/-! The notation of durations. A text is read exactly when the grammar below has it and its length
is one that a duration can have. The grammar adds up numbers of any size; the words in which a text
is added up are wide enough for whatever a duration can hold, so that a sum that does not fit them
is too long in any case. -/
namespace UnitFiles.Duration
open Number

def units : List (List Char × Nat) :=
  [(['n', 's'], 1), (['u', 's'], 1_000), (['\u00b5', 's'], 1_000), (['\u03bc', 's'], 1_000),
    (['m', 's'], 1_000_000), (['s'], 1_000_000_000), (['m'], 60_000_000_000),
    (['h'], 3_600_000_000_000)]

/-- The nanoseconds of a number of units, of which the first eighteen digits after the point count.
What is left below a nanosecond is cut off. -/
def nanosecondsOf (whole fraction : List Char) (unit : Nat) : Nat :=
  Nat.ofDigitChars 10 whole 0 * unit +
    Nat.ofDigitChars 10 (fraction.take 18) 0 * unit / 10 ^ (fraction.take 18).length

/-- A number with its unit, and the nanoseconds that it stands for. A number has a digit on one side
of the point at least. -/
inductive DenotesComponent : List Char → Nat → Prop
  | whole {digits unit : List Char} {size : Nat} (decimal : ∀ c ∈ digits, c.isDigit = true)
      (digit : digits ≠ []) (known : (unit, size) ∈ units) :
      DenotesComponent (digits ++ unit) (nanosecondsOf digits [] size)
  | pointed {whole fraction unit : List Char} {size : Nat}
      (decimal : ∀ c ∈ whole ++ fraction, c.isDigit = true) (digit : whole ++ fraction ≠ [])
      (known : (unit, size) ∈ units) :
      DenotesComponent (whole ++ '.' :: (fraction ++ unit)) (nanosecondsOf whole fraction size)

/-- A row of components, and the sum of their nanoseconds. -/
inductive DenotesSum : List Char → Nat → Prop
  | nil : DenotesSum [] 0
  | cons {s t : List Char} {n m : Nat} (first : DenotesComponent s n) (rest : DenotesSum t m) :
      DenotesSum (s ++ t) (n + m)

/-- A length of time without a sign: a bare zero, or at least one component. -/
inductive DenotesLength : List Char → Nat → Prop
  | zero : DenotesLength ['0'] 0
  | components {s t : List Char} {n m : Nat} (first : DenotesComponent s n)
      (rest : DenotesSum t m) : DenotesLength (s ++ t) (n + m)

/-- A duration of any length, perhaps with a sign. Only the zero duration may have a minus. -/
inductive DenotesDuration : List Char → Nat → Prop
  | unsigned {s : List Char} {n : Nat} (length : DenotesLength s n) : DenotesDuration s n
  | plus {s : List Char} {n : Nat} (length : DenotesLength s n) : DenotesDuration ('+' :: s) n
  | minus {s : List Char} (length : DenotesLength s 0) : DenotesDuration ('-' :: s) 0

def StartsNumber (s : List Char) : Prop := ∀ c ∈ s.head?, startsNumber c = true

theorem startsNumber_nil : StartsNumber [] := by simp [StartsNumber]

theorem startsNumber_of_isDigit {c : Char} (h : c.isDigit = true) : startsNumber c = true := by
  rw [startsNumber, h, Bool.or_true]

section Components
variable {s t rest : List Char} {n m : Nat}

theorem unitNanoseconds?_eq_some_iff {unit : List Char} {size : Count} :
    unitNanoseconds? unit = some size ↔ (unit, size.toNat) ∈ units := by
  constructor
  · intro h
    unfold unitNanoseconds? at h
    split_ifs at h <;> cases h <;> simp_all [units, or_assoc]
  · intro h
    have hread : ∀ p ∈ units, (unitNanoseconds? p.1).map BitVec.toNat = some p.2 := by decide
    obtain ⟨found, hfound, hsize⟩ := Option.map_eq_some_iff.mp (hread _ h)
    rw [hfound, BitVec.toNat_inj.mp hsize]

/-- A unit is at least one character, and none of them can start a number. -/
theorem mem_units {unit : List Char} {size : Nat} (h : (unit, size) ∈ units) :
    unit ≠ [] ∧ (∀ c ∈ unit, startsNumber c = false) ∧ 0 < size ∧ size ≤ 3_600_000_000_000 := by
  have hletters : ∀ p ∈ units, p.1 ≠ [] ∧ (p.1.all fun c => !startsNumber c) = true := by decide
  have hsizes : ∀ p ∈ units, 0 < p.2 ∧ p.2 ≤ 3_600_000_000_000 := by simp [units]
  exact ⟨(hletters _ h).1, by simpa using (hletters _ h).2, hsizes _ h⟩

theorem startsNumber_unit {unit : List Char} {size : Nat} (h : (unit, size) ∈ units)
    (rest : List Char) : ∀ c ∈ (unit ++ rest).head?, startsNumber c = false := by
  obtain ⟨hne, hletters, -⟩ := mem_units h
  intro c hc
  rw [List.head?_append_of_ne_nil _ hne] at hc
  exact hletters c (List.mem_of_head? hc)

/-- The unit is taken up to the next number. -/
theorem takeWhile_unit {unit : List Char} {size : Nat} (h : (unit, size) ∈ units)
    (hrest : StartsNumber rest) :
    (unit ++ rest).takeWhile (!startsNumber ·) = unit ∧
      (unit ++ rest).dropWhile (!startsNumber ·) = rest := by
  have hletters : ∀ c ∈ unit, (!startsNumber c) = true := by
    simpa using (mem_units h).2.1
  exact takeWhile_append_stop hletters fun c hc => by rw [hrest c hc, Bool.not_true]

/-- A component that was taken from a text. Its unit is small enough for eighteen digits. -/
structure Component.Plain (c : Component) : Prop where
  decimal : ∀ d ∈ c.fraction, d.isDigit = true
  unit_pos : 0 < c.unit.toNat
  unit_le : c.unit.toNat ≤ 3_600_000_000_000

def Component.nanoseconds (c : Component) : Nat := nanosecondsOf c.whole c.fraction c.unit.toNat

theorem takeFraction_unit {unit : List Char} {size : Nat} (h : (unit, size) ∈ units)
    (rest : List Char) : takeFraction (unit ++ rest) = ([], unit ++ rest) := by
  unfold takeFraction
  split
  · rename_i hpoint
    have hstart := startsNumber_unit h rest '.' (by rw [hpoint]; rfl)
    exact absurd hstart (by decide)
  · rfl

theorem isDigit_unit {unit : List Char} {size : Nat} (h : (unit, size) ∈ units)
    (rest : List Char) : ∀ c ∈ (unit ++ rest).head?, c.isDigit = false := by
  intro c hc
  have hstart := startsNumber_unit h rest c hc
  rw [startsNumber, Bool.or_eq_false_iff] at hstart
  exact hstart.2

theorem takeComponent?_eq {whole fraction unit r : List Char} {size : Nat}
    (hwhole : takeDigits s = (whole, r)) (hfraction : takeFraction r = (fraction, unit ++ rest))
    (hdigit : whole ++ fraction ≠ []) (hdecimal : ∀ c ∈ fraction, c.isDigit = true)
    (known : (unit, size) ∈ units) (hrest : StartsNumber rest) :
    ∃ c, takeComponent? s = some (c, rest) ∧ c.Plain ∧
      c.nanoseconds = nanosecondsOf whole fraction size := by
  obtain ⟨-, -, hpos, hle⟩ := mem_units known
  obtain ⟨found, rfl⟩ : ∃ found : Count, found.toNat = size := exists_toNat_eq (by omega)
  obtain ⟨htake, hdrop⟩ := takeWhile_unit known hrest
  have hsome : (whole.isEmpty && fraction.isEmpty) = false := by
    rw [← Bool.not_eq_true]
    simpa using hdigit
  refine ⟨⟨whole, fraction, found⟩, ?_, ⟨hdecimal, hpos, hle⟩, rfl⟩
  simp only [takeComponent?, hwhole, hfraction, hsome, htake, hdrop,
    unitNanoseconds?_eq_some_iff.mpr known, Bool.false_eq_true, if_false, Option.map_some]

theorem DenotesComponent.takeComponent? (h : DenotesComponent s n) (hrest : StartsNumber rest) :
    ∃ c, takeComponent? (s ++ rest) = some (c, rest) ∧ c.Plain ∧ c.nanoseconds = n := by
  cases h with
  | @whole digits unit size decimal digit known =>
    rw [List.append_assoc]
    exact takeComponent?_eq (takeDigits_append decimal (isDigit_unit known rest))
      (takeFraction_unit known rest) (by simpa using digit) (by simp) known hrest
  | @pointed whole fraction unit size decimal digit known =>
    obtain ⟨hwhole, hfraction⟩ := List.forall_mem_append.mp decimal
    have hpoint : ∀ c ∈ ('.' :: (fraction ++ (unit ++ rest))).head?, c.isDigit = false := by
      rintro c ⟨⟩
      decide
    rw [List.append_assoc, List.cons_append, List.append_assoc]
    exact takeComponent?_eq (takeDigits_append hwhole hpoint)
      (takeDigits_append hfraction (isDigit_unit known rest)) digit hfraction known hrest

theorem takeDigits_spec {digits : List Char} (h : takeDigits s = (digits, rest)) :
    s = digits ++ rest ∧ ∀ c ∈ digits, c.isDigit = true := by
  obtain ⟨rfl, rfl⟩ := Prod.mk.inj h
  exact ⟨List.takeWhile_append_dropWhile.symm, fun _ hc => List.mem_takeWhile_imp hc⟩

theorem takeFraction_spec {fraction : List Char} (h : takeFraction s = (fraction, rest)) :
    (fraction = [] ∧ s = rest) ∨
      s = '.' :: (fraction ++ rest) ∧ ∀ c ∈ fraction, c.isDigit = true := by
  unfold takeFraction at h
  split at h
  · obtain ⟨rfl, hdecimal⟩ := takeDigits_spec h
    exact .inr ⟨rfl, hdecimal⟩
  · obtain ⟨rfl, rfl⟩ := Prod.mk.inj h
    exact .inl ⟨rfl, rfl⟩

theorem startsNumber_dropWhile (s : List Char) :
    StartsNumber (s.dropWhile (!startsNumber ·)) := by
  intro c hc
  have hstop := List.head?_dropWhile_not (!startsNumber ·) s
  rw [hc] at hstop
  simpa using hstop

theorem exists_unit_of_takeComponent? {c : Component} (h : takeComponent? s = some (c, rest)) :
    ∃ r unit, takeDigits s = (c.whole, r) ∧ takeFraction r = (c.fraction, unit ++ rest) ∧
      c.whole ++ c.fraction ≠ [] ∧ (unit, c.unit.toNat) ∈ units ∧ StartsNumber rest := by
  simp only [takeComponent?] at h
  split at h
  · cases h
  · rename_i hdigit
    obtain ⟨size, hsize, heq⟩ := Option.map_eq_some_iff.mp h
    obtain ⟨rfl, rfl⟩ := Prod.mk.inj heq
    refine ⟨_, _, rfl, ?_, by simpa using hdigit, unitNanoseconds?_eq_some_iff.mp hsize,
      startsNumber_dropWhile _⟩
    rw [List.takeWhile_append_dropWhile]
    rfl

/-- What is taken from a text is a component of the grammar, and the next number is left. -/
theorem exists_of_takeComponent? {c : Component} (h : takeComponent? s = some (c, rest)) :
    c.Plain ∧ StartsNumber rest ∧ ∃ text, s = text ++ rest ∧
      DenotesComponent text c.nanoseconds := by
  obtain ⟨r, unit, hwhole, hfraction, hdigit, known, hrest⟩ := exists_unit_of_takeComponent? h
  obtain ⟨-, -, hpos, hle⟩ := mem_units known
  obtain ⟨whole, fraction, size⟩ := c
  obtain ⟨rfl, hdecimal⟩ := takeDigits_spec hwhole
  rcases takeFraction_spec hfraction with ⟨rfl, rfl⟩ | ⟨rfl, hdecimal'⟩
  · refine ⟨⟨by simp, hpos, hle⟩, hrest, whole ++ unit, (List.append_assoc ..).symm, ?_⟩
    exact .whole hdecimal (by simpa using hdigit) known
  · refine ⟨⟨hdecimal', hpos, hle⟩, hrest, whole ++ '.' :: (fraction ++ unit), by simp, ?_⟩
    exact .pointed (List.forall_mem_append.mpr ⟨hdecimal, hdecimal'⟩) hdigit known

end Components

section Words
variable {total sum : Count} {c : Component}

theorem toNat_addDigit {fraction : Count × Count} {digit : Char} (hdigit : digit.isDigit = true)
    (hless : fraction.1.toNat < fraction.2.toNat) (hsmall : fraction.2.toNat * 10 ≤ 10 ^ 18) :
    (addDigit fraction digit).1.toNat = 10 * fraction.1.toNat + (digit.toNat - '0'.toNat) ∧
      (addDigit fraction digit).2.toNat = fraction.2.toNat * 10 ∧
      (addDigit fraction digit).1.toNat < (addDigit fraction digit).2.toNat := by
  have hbounds : 48 ≤ digit.toNat ∧ digit.toNat ≤ 57 := Char.isDigit_iff_toNat.mp hdigit
  have hzero : '0'.toNat = 48 := rfl
  have hten : (10 : Count).toNat = 10 := rfl
  have hover : (addDigit fraction digit).1.toNat =
      10 * fraction.1.toNat + (digit.toNat - '0'.toNat) := by
    simp only [addDigit, hzero, hten, BitVec.toNat_add, BitVec.toNat_mul, BitVec.toNat_ofNat]
    simp (disch := omega) only [Nat.mod_eq_of_lt]
    omega
  have hbelow : (addDigit fraction digit).2.toNat = fraction.2.toNat * 10 := by
    simp only [addDigit, hten, BitVec.toNat_mul]
    exact Nat.mod_eq_of_lt (by omega)
  exact ⟨hover, hbelow, by omega⟩

theorem toNat_foldl_addDigit {digits : List Char} (hdecimal : ∀ c ∈ digits, c.isDigit = true)
    (fraction : Count × Count) (hless : fraction.1.toNat < fraction.2.toNat)
    (hsmall : fraction.2.toNat * 10 ^ digits.length ≤ 10 ^ 18) :
    (digits.foldl addDigit fraction).1.toNat = Nat.ofDigitChars 10 digits fraction.1.toNat ∧
      (digits.foldl addDigit fraction).2.toNat = fraction.2.toNat * 10 ^ digits.length ∧
      (digits.foldl addDigit fraction).1.toNat < (digits.foldl addDigit fraction).2.toNat := by
  induction digits generalizing fraction with
  | nil => simpa using hless
  | cons d rest ih =>
    obtain ⟨hd, hrest⟩ := List.forall_mem_cons.mp hdecimal
    rw [List.length_cons, Nat.pow_succ', ← Nat.mul_assoc] at hsmall
    have hpow : 0 < 10 ^ rest.length := Nat.pow_pos (by decide)
    obtain ⟨hfirst, hsecond, hless'⟩ := toNat_addDigit hd hless
      ((Nat.le_mul_of_pos_right _ hpow).trans hsmall)
    rw [← hsecond] at hsmall
    rw [List.foldl_cons, Nat.ofDigitChars_cons, ← hfirst, List.length_cons, Nat.pow_succ',
      ← Nat.mul_assoc, ← hsecond]
    exact ih hrest _ hless' hsmall

/-- The share of a unit is exact: with eighteen digits at most nothing wraps around. -/
theorem toNat_shareOf {unit : Count} {digits : List Char}
    (hdecimal : ∀ c ∈ digits, c.isDigit = true) (hunit : unit.toNat ≤ 3_600_000_000_000) :
    (shareOf unit digits).toNat =
      Nat.ofDigitChars 10 (digits.take 18) 0 * unit.toNat / 10 ^ (digits.take 18).length := by
  have hkept : ∀ c ∈ digits.take 18, c.isDigit = true :=
    fun c hc => hdecimal c (List.mem_of_mem_take hc)
  have hpow : 10 ^ (digits.take 18).length ≤ 10 ^ 18 :=
    Nat.pow_le_pow_right (by decide) (List.length_take_le 18 digits)
  have hone : (1 : Count).toNat * 10 ^ (digits.take 18).length = 10 ^ (digits.take 18).length :=
    Nat.one_mul _
  obtain ⟨hover, hbelow, hless⟩ := toNat_foldl_addDigit hkept (0, 1) (by decide)
    (hone.trans_le hpow)
  rw [hone] at hbelow
  have hfits : ((digits.take 18).foldl addDigit (0, 1)).1.toNat * unit.toNat < 2 ^ 128 := by
    calc ((digits.take 18).foldl addDigit (0, 1)).1.toNat * unit.toNat
        ≤ 10 ^ 18 * 3_600_000_000_000 := Nat.mul_le_mul (by omega) hunit
      _ < 2 ^ 128 := by decide
  rw [shareOf, BitVec.toNat_udiv, BitVec.toNat_mul, Nat.mod_eq_of_lt hfits, hover, hbelow]
  rfl

/-- A component is added exactly, or not at all when the sum cannot be counted. -/
theorem Component.Plain.addTo?_eq_some_iff (h : c.Plain) :
    c.addTo? total = some sum ↔ sum.toNat = total.toNat + c.nanoseconds := by
  have hshare := toNat_shareOf h.decimal h.unit_le
  have hsum : c.nanoseconds = Nat.ofDigitChars 10 c.whole 0 * c.unit.toNat +
      (shareOf c.unit c.fraction).toNat := by
    rw [hshare]
    rfl
  simp only [addTo?, Option.bind_eq_some_iff, word?_eq_some_iff, mulWords?_eq_some_iff,
    addWords?_eq_some_iff]
  constructor
  · rintro ⟨whole, hwhole, n, hn, before, hbefore, hfinal⟩
    rw [hfinal, hbefore, hn, hwhole, hsum, Nat.add_assoc]
  · intro hfinal
    have hcounted := sum.isLt
    have hle := Nat.le_mul_of_pos_right (Nat.ofDigitChars 10 c.whole 0) h.unit_pos
    obtain ⟨whole, hwhole⟩ : ∃ whole : Count, whole.toNat = Nat.ofDigitChars 10 c.whole 0 :=
      exists_toNat_eq (by omega)
    rw [← hwhole] at hsum
    obtain ⟨n, hn⟩ : ∃ n : Count, n.toNat = whole.toNat * c.unit.toNat :=
      exists_toNat_eq (by omega)
    obtain ⟨before, hbefore⟩ : ∃ before : Count, before.toNat = total.toNat + n.toNat :=
      exists_toNat_eq (by omega)
    exact ⟨whole, hwhole, n, hn, before, hbefore, by omega⟩

end Words

section Sums
variable {s t : List Char} {n m : Nat}

theorem DenotesComponent.startsNumber (h : DenotesComponent s n) (t : List Char) :
    s ≠ [] ∧ StartsNumber (s ++ t) := by
  have hdigits : ∀ {digits r : List Char}, (∀ c ∈ digits, c.isDigit = true) → digits ≠ [] →
      digits ++ r ≠ [] ∧ StartsNumber (digits ++ r ++ t) := by
    intro digits r hdecimal hdigit
    refine ⟨by simp [hdigit], ?_⟩
    intro c hc
    rw [List.append_assoc, List.head?_append_of_ne_nil _ hdigit] at hc
    exact startsNumber_of_isDigit (hdecimal c (List.mem_of_head? hc))
  cases h with
  | whole decimal digit _ => exact hdigits decimal digit
  | @pointed whole fraction unit _ decimal _ _ =>
    obtain ⟨hwhole, -⟩ := List.forall_mem_append.mp decimal
    by_cases hnil : whole = []
    · subst hnil
      refine ⟨List.cons_ne_nil _ _, ?_⟩
      rintro c ⟨⟩
      rfl
    · exact hdigits hwhole hnil

theorem DenotesSum.startsNumber (h : DenotesSum s n) : StartsNumber s := by
  cases h with
  | nil => exact startsNumber_nil
  | cons first _ => exact (first.startsNumber _).2

theorem sumFrom?_nil (total : Count) : sumFrom? total [] = some total := by
  rw [sumFrom?]
  rfl

theorem sumFrom?_of_takeComponent? {c : Component} (h : takeComponent? s = some (c, t))
    (total : Count) :
    sumFrom? total s = (c.addTo? total).bind fun total => sumFrom? total t := by
  have hne : s.isEmpty = false := by
    cases s with
    | nil => cases h
    | cons _ _ => rfl
  rw [sumFrom?, hne]
  simp only [Bool.false_eq_true, if_false]
  split
  · rename_i hnone
    rw [hnone] at h
    cases h
  · rename_i hsome
    rw [hsome] at h
    cases h
    rfl

theorem sumFrom?_of_takeComponent?_eq_none (hne : s ≠ []) (h : takeComponent? s = none)
    (total : Count) : sumFrom? total s = none := by
  rw [sumFrom?, if_neg (by simpa using hne)]
  split
  · rfl
  · rename_i hsome
    rw [hsome] at h
    cases h

/-- The sum of a text is counted exactly when it is a row of components whose sum can be counted
behind what is in front of it. The induction for one direction is on what is left of the text, for
the other on the row. -/
theorem sumFrom?_eq_some_iff {total sum : Count} :
    sumFrom? total s = some sum ↔ ∃ n, DenotesSum s n ∧ sum.toNat = total.toNat + n := by
  constructor
  · intro h
    induction hlength : s.length using Nat.strongRecOn generalizing s total with
    | ind length ih =>
      subst hlength
      by_cases hne : s = []
      · subst hne
        rw [sumFrom?_nil] at h
        exact ⟨0, .nil, by rw [Option.some.inj h, Nat.add_zero]⟩
      · cases htake : takeComponent? s with
        | none =>
          rw [sumFrom?_of_takeComponent?_eq_none hne htake] at h
          cases h
        | some p =>
          obtain ⟨c, rest⟩ := p
          rw [sumFrom?_of_takeComponent? htake] at h
          obtain ⟨before, hbefore, hrest⟩ := Option.bind_eq_some_iff.mp h
          obtain ⟨hplain, -, text, rfl, hcomponent⟩ := exists_of_takeComponent? htake
          obtain ⟨m, hm, hsum⟩ := ih _ (takeComponent?_shorter htake) hrest rfl
          rw [hplain.addTo?_eq_some_iff] at hbefore
          exact ⟨_, .cons hcomponent hm, by omega⟩
  · rintro ⟨n, hn, hsum⟩
    induction hn generalizing total with
    | nil => rw [sumFrom?_nil, BitVec.toNat_inj.mp hsum]
    | @cons text rest n m hfirst hrest ih =>
      obtain ⟨c, htake, hplain, rfl⟩ := hfirst.takeComponent? hrest.startsNumber
      have hcounted := sum.isLt
      obtain ⟨before, hbefore⟩ : ∃ before : Count, before.toNat = total.toNat + c.nanoseconds :=
        exists_toNat_eq (by omega)
      rw [sumFrom?_of_takeComponent? htake, hplain.addTo?_eq_some_iff.mpr hbefore,
        Option.bind_some]
      exact ih (by omega)

theorem DenotesSum.unique (hn : DenotesSum s n) (hm : DenotesSum s m) : n = m := by
  induction hn generalizing m with
  | nil =>
    generalize hs : ([] : List Char) = s at hm
    cases hm with
    | nil => rfl
    | cons first _ => exact absurd (List.append_eq_nil_iff.mp hs.symm).1 (first.startsNumber []).1
  | @cons text rest n k first hrest ih =>
    obtain ⟨c, htake, -, rfl⟩ := first.takeComponent? hrest.startsNumber
    generalize hs : text ++ rest = s at hm htake
    cases hm with
    | nil => exact absurd (List.append_eq_nil_iff.mp hs).1 (first.startsNumber []).1
    | cons first' hrest' =>
      obtain ⟨c', htake', -, rfl⟩ := first'.takeComponent? hrest'.startsNumber
      rw [htake] at htake'
      cases htake'
      rw [ih hrest']

end Sums

section Signs
variable {s : List Char} {n m : Nat} {d : Duration}

theorem not_denotesSum_zero : ¬DenotesSum ['0'] n := by
  generalize hs : ['0'] = s
  intro h
  cases h with
  | nil => cases hs
  | cons first rest =>
    obtain ⟨c, htake, -, -⟩ := first.takeComponent? rest.startsNumber
    have hnone : takeComponent? ['0'] = none := by decide
    rw [← hs, hnone] at htake
    cases htake

theorem denotesLength_iff :
    DenotesLength s n ↔ s = ['0'] ∧ n = 0 ∨ s ≠ [] ∧ DenotesSum s n := by
  constructor
  · intro h
    cases h with
    | zero => exact .inl ⟨rfl, rfl⟩
    | components first rest =>
      exact .inr ⟨by simp [(first.startsNumber []).1], .cons first rest⟩
  · rintro (⟨rfl, rfl⟩ | ⟨hne, hsum⟩)
    · exact .zero
    · cases hsum with
      | nil => exact absurd rfl hne
      | cons first rest => exact .components first rest

theorem DenotesLength.head?_ne_sign (h : DenotesLength s n) :
    s.head? ≠ some '-' ∧ s.head? ≠ some '+' := by
  cases h with
  | zero => decide
  | @components _ t _ _ first _ =>
    have hstart := (first.startsNumber t).2
    exact ⟨fun hsign => absurd (hstart _ hsign) (by decide),
      fun hsign => absurd (hstart _ hsign) (by decide)⟩

theorem denotesDuration_iff :
    DenotesDuration s n ↔ DenotesLength (takeSign s).2 n ∧ ((takeSign s).1 = true → n = 0) := by
  constructor
  · intro h
    cases h with
    | unsigned length =>
      obtain ⟨hminus, hplus⟩ := length.head?_ne_sign
      rw [takeSign_unsigned hminus hplus]
      exact ⟨length, nofun⟩
    | plus length => exact ⟨length, nofun⟩
    | minus length => exact ⟨length, fun _ => rfl⟩
  · unfold takeSign
    split
    · rintro ⟨length, hzero⟩
      obtain rfl := hzero rfl
      exact .minus length
    · exact fun h => .plus h.1
    · exact fun h => .unsigned h.1

theorem DenotesDuration.unique (hn : DenotesDuration s n) (hm : DenotesDuration s m) : n = m := by
  obtain ⟨hn, -⟩ := denotesDuration_iff.mp hn
  obtain ⟨hm, -⟩ := denotesDuration_iff.mp hm
  rw [denotesLength_iff] at hn hm
  rcases hn with ⟨hs, rfl⟩ | ⟨-, hn⟩ <;> rcases hm with ⟨hs', rfl⟩ | ⟨-, hm⟩
  · rfl
  · exact absurd (hs ▸ hm) not_denotesSum_zero
  · exact absurd (hs' ▸ hn) not_denotesSum_zero
  · exact hn.unique hm

theorem ofNanoseconds?_eq_some_iff : ofNanoseconds? n = some d ↔ d.nanoseconds = n := by
  rw [ofNanoseconds?]
  split
  · rw [Option.some.injEq]
    exact ⟨fun h => h ▸ rfl, fun h => by subst h; rfl⟩
  · rename_i hlong
    simp only [reduceCtorEq, false_iff]
    rintro rfl
    exact hlong d.bound

/-- With a minus in front only zero is left. -/
theorem signedNanoseconds_eq_some_iff {negative : Bool} {total : Count} :
    (if negative && total != 0 then none else ofNanoseconds? total.toNat) = some d ↔
      d.nanoseconds = total.toNat ∧ (negative = true → d.nanoseconds = 0) := by
  have hnonzero : (total != 0) = true ↔ total.toNat ≠ 0 := by
    rw [bne_iff_ne, Ne, BitVec.toNat_eq]
    rfl
  split
  · rename_i hrefused
    rw [Bool.and_eq_true, hnonzero] at hrefused
    simp only [reduceCtorEq, false_iff]
    rintro ⟨hd, hsign⟩
    exact hrefused.2 (hd ▸ hsign hrefused.1)
  · rename_i haccepted
    rw [Bool.and_eq_true, hnonzero] at haccepted
    rw [ofNanoseconds?_eq_some_iff]
    refine ⟨fun hd => ⟨hd, fun hsign => ?_⟩, fun h => h.1⟩
    by_contra hd'
    exact haccepted ⟨hsign, hd ▸ hd'⟩

theorem read?_eq_some_iff : read? s = some d ↔ DenotesDuration s d.nanoseconds := by
  rw [denotesDuration_iff, denotesLength_iff]
  simp only [read?]
  generalize takeSign s = signed
  obtain ⟨negative, body⟩ := signed
  have hzero : some zero = some d ↔ d.nanoseconds = 0 := by
    rw [← ofNanoseconds?_eq_some_iff]
    rfl
  by_cases hbare : body = ['0']
  · subst hbare
    simp only [if_true, hzero, true_and, not_denotesSum_zero, and_false, or_false]
    exact ⟨fun h => ⟨h, fun _ => h⟩, fun h => h.1⟩
  · simp only [hbare, if_false, false_and, false_or]
    by_cases hnil : body = []
    · simp [hnil]
    · have hne : body.isEmpty = false := by simpa using hnil
      simp only [hne, Bool.false_eq_true, if_false, Option.bind_eq_some_iff, sumFrom?_eq_some_iff,
        signedNanoseconds_eq_some_iff]
      constructor
      · rintro ⟨total, ⟨n, hn, htotal⟩, hd, hsign⟩
        have hvalue : d.nanoseconds = n := hd.trans (htotal.trans (Nat.zero_add n))
        exact ⟨⟨hnil, hvalue ▸ hn⟩, hsign⟩
      · rintro ⟨⟨-, hsum⟩, hsign⟩
        have hbound := d.bound
        obtain ⟨total, htotal⟩ : ∃ total : Count, total.toNat = d.nanoseconds :=
          exists_toNat_eq (by omega)
        exact ⟨total, ⟨_, hsum, htotal.trans (Nat.zero_add _).symm⟩, htotal.symm, hsign⟩

end Signs

/-- A text denotes at most one length of time. If its whole seconds fit in 64 bits, the text is read
as that length, and any other text is refused as a whole. Every round of reading takes something
from the text, so that it comes to an end. -/
theorem readDuration_notation :
    (∀ raw : String,
      (∀ n m, DenotesDuration raw.toList n → DenotesDuration raw.toList m → n = m) ∧
      (∀ n, DenotesDuration raw.toList n → n / 1_000_000_000 ≤ 2 ^ 64 - 1 →
        ∃ d, readDuration raw = .ok d ∧ d.seconds = n / 1_000_000_000 ∧
          d.subsecond = n % 1_000_000_000) ∧
      (readDuration raw = .error (.invalidDuration raw) ↔
        ¬∃ n, DenotesDuration raw.toList n ∧ n / 1_000_000_000 ≤ 2 ^ 64 - 1)) ∧
    ∀ s c rest, takeComponent? s = some (c, rest) → rest.length < s.length := by
  refine ⟨fun raw => ⟨fun _ _ => DenotesDuration.unique, ?_, ?_⟩,
    fun _ _ _ => takeComponent?_shorter⟩
  · intro n hn hfits
    have hread : read? raw.toList = some ⟨n, by omega⟩ := read?_eq_some_iff.mpr hn
    exact ⟨⟨n, by omega⟩, by rw [readDuration, hread]; rfl, rfl, rfl⟩
  · cases hread : read? raw.toList with
    | none =>
      have hnone : readDuration raw = .error (.invalidDuration raw) := by
        rw [readDuration, hread]
        rfl
      refine iff_of_true hnone ?_
      rintro ⟨n, hn, hfits⟩
      have hsome : read? raw.toList = some ⟨n, by omega⟩ := read?_eq_some_iff.mpr hn
      rw [hread] at hsome
      cases hsome
    | some d =>
      have hok : readDuration raw = .ok d := by
        rw [readDuration, hread]
        rfl
      have hbound := d.bound
      rw [hok]
      simp only [reduceCtorEq, false_iff, not_not]
      exact ⟨d.nanoseconds, read?_eq_some_iff.mp hread, by omega⟩

end UnitFiles.Duration

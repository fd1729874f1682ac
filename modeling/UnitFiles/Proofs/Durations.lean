import UnitFiles.Proofs.DurationNotation

/-! Durations are read as what they were written for. Their text is a row of components of the
grammar, each a number with a unit, and the nanoseconds of these add up to those of the duration. -/
namespace UnitFiles.Duration
open Number

theorem exists_dropWhile_zeros (s : List Char) :
    ∃ zeros, s = (s.reverse.dropWhile (· == '0')).reverse ++ List.replicate zeros '0' := by
  have hzeros : s.reverse.takeWhile (· == '0') =
      List.replicate (s.reverse.takeWhile (· == '0')).length '0' :=
    List.eq_replicate_of_mem fun c hc => by simpa using List.mem_takeWhile_imp hc
  refine ⟨(s.reverse.takeWhile (· == '0')).length, ?_⟩
  calc s = (s.reverse.takeWhile (· == '0') ++ s.reverse.dropWhile (· == '0')).reverse := by
        rw [List.takeWhile_append_dropWhile, List.reverse_reverse]
    _ = (s.reverse.dropWhile (· == '0')).reverse ++
          (s.reverse.takeWhile (· == '0')).reverse := List.reverse_append
    _ = (s.reverse.dropWhile (· == '0')).reverse ++
          List.replicate (s.reverse.takeWhile (· == '0')).length '0' := by
        conv_lhs => rw [hzeros, List.reverse_replicate]

/-- The zeros at the end that are left out do not change the share of a second. -/
theorem fractionDigits_spec {n : Nat} (h : n < 1_000_000_000) :
    ∃ zeros, (fractionDigits n).length + zeros = 9 ∧
      Nat.ofDigitChars 10 (fractionDigits n) 0 * 10 ^ zeros = n := by
  have hlength : (Nat.toDigits 10 n).length ≤ 9 :=
    (Nat.length_toDigits_le_iff (by decide) (by decide)).mpr h
  obtain ⟨zeros, hzeros⟩ := exists_dropWhile_zeros
    (List.replicate (9 - (Nat.toDigits 10 n).length) '0' ++ Nat.toDigits 10 n)
  rw [← fractionDigits] at hzeros
  refine ⟨zeros, ?_, ?_⟩
  · have hlengths := congrArg List.length hzeros
    simp only [List.length_append, List.length_replicate] at hlengths
    omega
  · have hvalues := congrArg (fun s => Nat.ofDigitChars 10 s 0) hzeros
    simp only [Nat.ofDigitChars_append, Nat.ofDigitChars_replicate_zero, Nat.mul_zero,
      Nat.ofDigitChars_ten_toDigits] at hvalues
    rw [Nat.mul_comm]
    exact hvalues.symm

theorem isDigit_of_mem_fractionDigits {n : Nat} {c : Char} (h : c ∈ fractionDigits n) :
    c.isDigit = true := by
  have hmem := (List.dropWhile_sublist _).subset (List.mem_reverse.mp h)
  rw [List.mem_reverse, List.mem_append] at hmem
  rcases hmem with hmem | hmem
  · rw [List.eq_of_mem_replicate hmem]
    decide
  · exact isDigit_of_mem_toDigits hmem

/-- The digits after the point stand for the nanoseconds that they were written for. -/
theorem nanosecondsOf_fractionDigits (n : Nat) {nanoseconds : Nat}
    (h : nanoseconds < 1_000_000_000) :
    nanosecondsOf (Nat.toDigits 10 n) (fractionDigits nanoseconds) 1_000_000_000 =
      n * 1_000_000_000 + nanoseconds := by
  obtain ⟨zeros, hlength, hvalue⟩ := fractionDigits_spec h
  have hkept : (fractionDigits nanoseconds).take 18 = fractionDigits nanoseconds :=
    List.take_of_length_le (by omega)
  have hunit : 1_000_000_000 = 10 ^ zeros * 10 ^ (fractionDigits nanoseconds).length := by
    rw [← Nat.pow_add, Nat.add_comm, hlength]
  rw [nanosecondsOf, hkept, Nat.ofDigitChars_ten_toDigits, Nat.add_left_cancel_iff]
  conv_lhs => rw [hunit, ← Nat.mul_assoc, hvalue]
  exact Nat.mul_div_cancel _ (Nat.pow_pos (by decide))

theorem denotesComponent_whole {unit : Char} {size : Nat} (known : ([unit], size) ∈ units)
    (n : Nat) : DenotesComponent (Nat.toDigits 10 n ++ [unit]) (n * size) := by
  have hwhole : nanosecondsOf (Nat.toDigits 10 n) [] size = n * size := by
    simp [nanosecondsOf, Nat.ofDigitChars_ten_toDigits]
  rw [← hwhole]
  exact .whole (fun c hc => isDigit_of_mem_toDigits hc) Nat.toDigits_ne_nil known

theorem denotesSum_component {unit : Char} {size : Nat} (known : ([unit], size) ∈ units) (n : Nat)
    {rest : List Char} {m : Nat} (hrest : DenotesSum rest m) :
    DenotesSum (component n unit ++ rest) (n * size + m) := by
  rw [component]
  split
  · rename_i hzero
    rwa [hzero, Nat.zero_mul, Nat.zero_add]
  · exact .cons (denotesComponent_whole known n) hrest

theorem hour_mem_units : (['h'], 3_600_000_000_000) ∈ units := by decide

theorem minute_mem_units : (['m'], 60_000_000_000) ∈ units := by decide

theorem second_mem_units : (['s'], 1_000_000_000) ∈ units := by decide

def secondsText (n nanoseconds : Nat) : List Char :=
  if nanoseconds = 0 then component n 's'
  else Nat.toDigits 10 n ++ '.' :: fractionDigits nanoseconds ++ ['s']

theorem denotesSum_secondsText (n : Nat) {nanoseconds : Nat} (h : nanoseconds < 1_000_000_000) :
    DenotesSum (secondsText n nanoseconds) (n * 1_000_000_000 + nanoseconds) := by
  rw [secondsText]
  split
  · rename_i hzero
    rw [← List.append_nil (component n 's'), hzero]
    exact denotesSum_component second_mem_units n .nil
  · have hdecimal : ∀ c ∈ Nat.toDigits 10 n ++ fractionDigits nanoseconds, c.isDigit = true :=
      List.forall_mem_append.mpr
        ⟨fun _ => isDigit_of_mem_toDigits, fun _ => isDigit_of_mem_fractionDigits⟩
    have hdigit : Nat.toDigits 10 n ++ fractionDigits nanoseconds ≠ [] := by
      simp [Nat.toDigits_ne_nil]
    have hpointed : DenotesComponent
        (Nat.toDigits 10 n ++ '.' :: (fractionDigits nanoseconds ++ ['s']))
        (nanosecondsOf (Nat.toDigits 10 n) (fractionDigits nanoseconds) 1_000_000_000) :=
      .pointed hdecimal hdigit second_mem_units
    rw [nanosecondsOf_fractionDigits n h] at hpointed
    simpa using DenotesSum.cons hpointed .nil

theorem text_of_ne_zero {d : Duration} (h : d.nanoseconds ≠ 0) :
    d.text.toList = component (d.seconds / 3600) 'h' ++
      (component (d.seconds % 3600 / 60) 'm' ++ secondsText (d.seconds % 60) d.subsecond) := by
  rw [text, if_neg h, String.toList_ofList, List.append_assoc]
  rfl

theorem text_of_eq_zero {d : Duration} (h : d.nanoseconds = 0) :
    d.text.toList = Nat.toDigits 10 0 ++ ['s'] := by
  rw [text, if_pos h]
  rfl

theorem denotesSum_text (d : Duration) : DenotesSum d.text.toList d.nanoseconds := by
  by_cases h : d.nanoseconds = 0
  · rw [text_of_eq_zero h, h]
    rw [← List.append_nil (Nat.toDigits 10 0 ++ ['s'])]
    exact .cons (denotesComponent_whole second_mem_units 0) .nil
  · have hsubsecond : d.subsecond < 1_000_000_000 := Nat.mod_lt _ (by decide)
    have hsum : d.seconds / 3600 * 3_600_000_000_000 +
        (d.seconds % 3600 / 60 * 60_000_000_000 +
          (d.seconds % 60 * 1_000_000_000 + d.subsecond)) = d.nanoseconds := by
      have hseconds : d.seconds = d.nanoseconds / 1_000_000_000 := rfl
      have hrest : d.subsecond = d.nanoseconds % 1_000_000_000 := rfl
      omega
    rw [text_of_ne_zero h, ← hsum]
    exact denotesSum_component hour_mem_units _
      (denotesSum_component minute_mem_units _ (denotesSum_secondsText _ hsubsecond))

theorem text_ne_nil (d : Duration) : d.text.toList ≠ [] := by
  intro hnil
  have hsum := denotesSum_text d
  rw [hnil] at hsum
  have hzero : d.nanoseconds = 0 := hsum.unique .nil
  rw [text_of_eq_zero hzero] at hnil
  cases hnil

theorem read?_text (d : Duration) : read? d.text.toList = some d :=
  have hlength : DenotesLength d.text.toList d.nanoseconds :=
    denotesLength_iff.mpr (.inr ⟨text_ne_nil d, denotesSum_text d⟩)
  read?_eq_some_iff.mpr (.unsigned hlength)

/-- Whatever is written for a duration is read as that duration. -/
theorem readDuration_text (d : Duration) : readDuration d.text = .ok d := by
  rw [readDuration, read?_text]
  rfl

end UnitFiles.Duration

import Mathlib.Algebra.Group.Int.Defs
import Mathlib.Algebra.Group.Nat.Defs
import Mathlib.Data.List.Basic
import UnitFiles.Number.Integer

/-! Decimal digits are read as the number that they were written for. -/
namespace UnitFiles.Number

theorem isDigit_of_mem_toDigits {n : Nat} {c : Char} (h : c ∈ Nat.toDigits 10 n) :
    c.isDigit = true :=
  Nat.isDigit_of_mem_toDigits (by decide) (by decide) h

/-- A row of characters of one kind is taken whole where another kind follows. -/
theorem takeWhile_append_stop {p : Char → Bool} {front rest : List Char}
    (hfront : ∀ c ∈ front, p c = true) (hrest : ∀ c ∈ rest.head?, p c = false) :
    (front ++ rest).takeWhile p = front ∧ (front ++ rest).dropWhile p = rest := by
  have hstop : rest.takeWhile p = [] ∧ rest.dropWhile p = rest := by
    cases rest with
    | nil => exact ⟨rfl, rfl⟩
    | cons c rest =>
      have hc := hrest c rfl
      simp [hc]
  rw [List.takeWhile_append_of_pos hfront, List.dropWhile_append_of_pos hfront, hstop.1, hstop.2,
    List.append_nil]
  exact ⟨rfl, rfl⟩

theorem takeDigits_append {digits rest : List Char} (hdigits : ∀ c ∈ digits, c.isDigit = true)
    (hrest : ∀ c ∈ rest.head?, c.isDigit = false) :
    takeDigits (digits ++ rest) = (digits, rest) := by
  obtain ⟨htake, hdrop⟩ := takeWhile_append_stop hdigits hrest
  rw [takeDigits, htake, hdrop]

theorem head?_toDigits_ne_zero {n : Nat} (h : 0 < n) : (Nat.toDigits 10 n).head? ≠ some '0' := by
  induction n using Nat.strongRecOn with
  | ind n ih =>
    rw [Nat.toDigits_eq_if (by decide)]
    split
    · rename_i hsmall
      have hdigit : ∀ d < 10, 0 < d → [Nat.digitChar d].head? ≠ some '0' := by decide
      exact hdigit n hsmall h
    · rw [List.head?_append_of_ne_nil _ Nat.toDigits_ne_nil]
      exact ih (n / 10) (by omega) (by omega)

theorem takeSign_unsigned {s : List Char} (hminus : s.head? ≠ some '-')
    (hplus : s.head? ≠ some '+') : takeSign s = (false, s) := by
  unfold takeSign
  split
  · exact absurd rfl hminus
  · exact absurd rfl hplus
  · rfl

theorem takeSign_toDigits (n : Nat) :
    takeSign (Nat.toDigits 10 n) = (false, Nat.toDigits 10 n) := by
  have hdigit : ∀ c, (Nat.toDigits 10 n).head? = some c → c.isDigit = true :=
    fun c hc => isDigit_of_mem_toDigits (List.mem_of_head? hc)
  exact takeSign_unsigned (fun h => absurd (hdigit _ h) (by decide))
    (fun h => absurd (hdigit _ h) (by decide))

theorem splitBase_decimal {digits : List Char} (h : digits.head? ≠ some '0') :
    splitBase digits = (10, digits) := by
  unfold splitBase
  split <;> first | rfl | exact absurd rfl h

theorem splitBase_toDigits (n : Nat) :
    splitBase (Nat.toDigits 10 n) = (10, Nat.toDigits 10 n) := by
  rcases Nat.eq_zero_or_pos n with rfl | hn
  · rfl
  · exact splitBase_decimal (head?_toDigits_ne_zero hn)

theorem hasDoubleUnderscore_eq_false {digits : List Char} (h : '_' ∉ digits) :
    hasDoubleUnderscore digits = false := by
  induction digits with
  | nil => rfl
  | cons c rest ih =>
    obtain ⟨hc, hrest⟩ := List.ne_and_not_mem_of_not_mem_cons h
    unfold hasDoubleUnderscore
    split
    · rename_i heq
      exact absurd (List.cons.inj heq).1.symm hc
    · rename_i heq
      rw [← (List.cons.inj heq).2]
      exact ih hrest
    · rfl

theorem underscoresFit_of_not_mem {digits : List Char} (base : Nat) (h : '_' ∉ digits) :
    underscoresFit base digits = true := by
  have hhead : digits.head? ≠ some '_' := fun hhead => h (List.mem_of_head? hhead)
  have hlast : digits.getLast? ≠ some '_' := fun hlast => h (List.mem_of_getLast? hlast)
  simp [underscoresFit, hasDoubleUnderscore_eq_false h, hhead, hlast]

theorem digitValue?_of_isDigit {c : Char} (h : c.isDigit = true) :
    digitValue? c = some (c.toNat - '0'.toNat) := by
  rw [digitValue?, if_pos h]

theorem isDigitOf_ten {c : Char} (h : c.isDigit = true) : isDigitOf 10 c = true := by
  have hbounds : 48 ≤ c.toNat ∧ c.toNat ≤ 57 := Char.isDigit_iff_toNat.mp h
  rw [isDigitOf, digitValue?_of_isDigit h]
  have hzero : '0'.toNat = 48 := rfl
  simp only [hzero, decide_eq_true_eq]
  omega

theorem ofDigits_ten {digits : List Char} (h : ∀ c ∈ digits, c.isDigit = true) :
    ofDigits 10 digits = Nat.ofDigitChars 10 digits 0 := by
  have hstart : ∀ start, digits.foldl (fun n c => n * 10 + (digitValue? c).getD 0) start =
      Nat.ofDigitChars 10 digits start := by
    induction digits with
    | nil => exact fun start => Nat.ofDigitChars_nil.symm
    | cons c rest ih =>
      intro start
      obtain ⟨hc, hrest⟩ := List.forall_mem_cons.mp h
      rw [List.foldl_cons, Nat.ofDigitChars_cons, ih hrest, digitValue?_of_isDigit hc,
        Option.getD_some, Nat.mul_comm]
  exact hstart 0

theorem readGrouped?_toDigits (n : Nat) : readGrouped? 10 (Nat.toDigits 10 n) = some n := by
  have hunderscore : '_' ∉ Nat.toDigits 10 n := Nat.underscore_not_in_toDigits
  have hplain : (Nat.toDigits 10 n).filter (· != '_') = Nat.toDigits 10 n := by
    rw [List.filter_eq_self]
    intro c hc
    simpa using ne_of_mem_of_not_mem hc hunderscore
  have hall : (Nat.toDigits 10 n).all (isDigitOf 10) = true := by
    rw [List.all_eq_true]
    exact fun c hc => isDigitOf_ten (isDigit_of_mem_toDigits hc)
  have hvalue : ofDigits 10 (Nat.toDigits 10 n) = n := by
    rw [ofDigits_ten fun c hc => isDigit_of_mem_toDigits hc, Nat.ofDigitChars_ten_toDigits]
  rw [readGrouped?, hplain, underscoresFit_of_not_mem _ hunderscore, hall, hvalue]
  simp [Nat.toDigits_ne_nil]

theorem exists_toNat_eq {width n : Nat} (h : n < 2 ^ width) : ∃ a : BitVec width, a.toNat = n :=
  ⟨BitVec.ofNat width n, by rw [BitVec.toNat_ofNat, Nat.mod_eq_of_lt h]⟩

/-- The word with the sign is the number with the sign, wherever that number fits. -/
theorem ofMagnitude?_eq_some_iff {negative : Bool} {magnitude : BitVec 64} {n : Int} :
    ofMagnitude? negative magnitude = some n ↔
      n = (if negative then -(magnitude.toNat : Int) else magnitude.toNat) ∧
        -2 ^ 63 ≤ n ∧ n ≤ 2 ^ 63 - 1 := by
  have hmagnitude := magnitude.isLt
  have hlimit : (9_223_372_036_854_775_808 : BitVec 64).toNat = 2 ^ 63 := rfl
  cases negative with
  | false =>
    simp only [ofMagnitude?, Bool.false_eq_true, if_false, BitVec.lt_def, hlimit,
      BitVec.toInt_eq_toNat_cond]
    split <;> simp only [Option.some.injEq, reduceCtorEq, false_iff] <;> omega
  | true =>
    simp only [ofMagnitude?, if_true, BitVec.le_def, hlimit, BitVec.toInt_eq_toNat_cond,
      BitVec.toNat_neg]
    split <;> simp only [Option.some.injEq, reduceCtorEq, false_iff] <;> omega

/-- The words in between do not show: a number is read when its digits are and when it fits. -/
theorem readInteger?_eq_some_iff {s : List Char} {n : Int} :
    readInteger? s = some n ↔
      ∃ value : Nat,
        readGrouped? (splitBase (takeSign s).2).1 (splitBase (takeSign s).2).2 = some value ∧
          n = (if (takeSign s).1 then -(value : Int) else value) ∧
            -2 ^ 63 ≤ n ∧ n ≤ 2 ^ 63 - 1 := by
  simp only [readInteger?, Option.bind_eq_some_iff, word?_eq_some_iff, ofMagnitude?_eq_some_iff]
  refine exists_congr fun value => and_congr_right fun _ => ?_
  constructor
  · rintro ⟨magnitude, rfl, h⟩
    exact h
  · rintro ⟨hn, hlow, hhigh⟩
    have hfits : value < 2 ^ 64 := by
      split at hn <;> omega
    obtain ⟨magnitude, rfl⟩ := exists_toNat_eq hfits
    exact ⟨magnitude, rfl, hn, hlow, hhigh⟩

theorem readInteger?_integerText {n : Int} (hlow : -9_223_372_036_854_775_808 ≤ n)
    (hhigh : n ≤ 9_223_372_036_854_775_807) :
    readInteger? (integerText n).toList = some n := by
  rw [readInteger?_eq_some_iff, integerText, String.toList_ofList]
  split
  · rename_i hneg
    have hsign : takeSign ('-' :: Nat.toDigits 10 n.natAbs) =
        (true, Nat.toDigits 10 n.natAbs) := rfl
    simp only [hsign, splitBase_toDigits, readGrouped?_toDigits, if_true]
    exact ⟨n.natAbs, rfl, by omega, hlow, hhigh⟩
  · rename_i hpos
    simp only [takeSign_toDigits, splitBase_toDigits, readGrouped?_toDigits, Bool.false_eq_true,
      if_false]
    exact ⟨n.natAbs, rfl, by omega, hlow, hhigh⟩

end UnitFiles.Number

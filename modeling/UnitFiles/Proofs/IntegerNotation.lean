import Mathlib.Data.Nat.Digits.Defs
import Mathlib.Data.List.Forall2
import Mathlib.Data.List.Induction
import UnitFiles.Proofs.CaseFolding
import UnitFiles.Proofs.Numerals
import UnitFiles.Value

/-! The notation of whole numbers. A text is read exactly when it is a numeral of the grammar below
and the number that it denotes fits in 64 bits, and it is read as that number. -/
namespace UnitFiles.Number

/-- A digit of a base and its value. From ten on digits are letters, in either case. -/
def IsDigit (base : Nat) (c : Char) (d : Nat) : Prop :=
  d < base ∧ (c = Nat.digitChar d ∨ c = (Nat.digitChar d).toUpper)

/-- Digits of a base, at least one, and their values. Single underscores may stand between them. -/
inductive Digits (base : Nat) : List Char → List Nat → Prop
  | one {c : Char} {d : Nat} (digit : IsDigit base c d) : Digits base [c] [d]
  | next {c : Char} {d : Nat} {s : List Char} {ds : List Nat} (digit : IsDigit base c d)
      (rest : Digits base s ds) : Digits base (c :: s) (d :: ds)
  | apart {c : Char} {d : Nat} {s : List Char} {ds : List Nat} (digit : IsDigit base c d)
      (rest : Digits base s ds) : Digits base (c :: '_' :: s) (d :: ds)

/-- The digits behind the mark of a base, where an underscore may stand in front of them too. -/
inductive MarkedDigits (base : Nat) : List Char → List Nat → Prop
  | next {s : List Char} {ds : List Nat} (digits : Digits base s ds) : MarkedDigits base s ds
  | apart {s : List Char} {ds : List Nat} (digits : Digits base s ds) :
      MarkedDigits base ('_' :: s) ds

def baseMarks : List (Char × Nat) :=
  [('x', 16), ('X', 16), ('o', 8), ('O', 8), ('b', 2), ('B', 2)]

/-- A whole number without a sign. The first digit is the one of the highest power. -/
inductive Numeral : List Char → Nat → Prop
  | zero : Numeral ['0'] 0
  | decimal {s : List Char} {d : Nat} {ds : List Nat} (digits : Digits 10 s (d :: ds))
      (leading : d ≠ 0) : Numeral s (Nat.ofDigits 10 (d :: ds).reverse)
  | marked {mark : Char} {base : Nat} {s : List Char} {ds : List Nat}
      (known : (mark, base) ∈ baseMarks) (digits : MarkedDigits base s ds) :
      Numeral ('0' :: mark :: s) (Nat.ofDigits base ds.reverse)
  | octal {s : List Char} {ds : List Nat} (digits : MarkedDigits 8 s ds) :
      Numeral ('0' :: s) (Nat.ofDigits 8 ds.reverse)

/-- A whole number of any size, perhaps with a sign. -/
inductive DenotesInteger : List Char → Int → Prop
  | unsigned {s : List Char} {n : Nat} (numeral : Numeral s n) : DenotesInteger s n
  | plus {s : List Char} {n : Nat} (numeral : Numeral s n) : DenotesInteger ('+' :: s) n
  | minus {s : List Char} {n : Nat} (numeral : Numeral s n) : DenotesInteger ('-' :: s) (-n)

theorem toNat_lt_of_digitValue? {c : Char} {d : Nat} (h : digitValue? c = some d) :
    c.toNat < 0x80 := by
  have hkind : c.isDigit = true ∨ c.isLower = true ∨ c.isUpper = true := by
    by_contra hnone
    simp only [not_or, Bool.not_eq_true] at hnone
    simp [digitValue?, hnone] at h
  have hbounds : (48 ≤ c.toNat ∧ c.toNat ≤ 57) ∨ (97 ≤ c.toNat ∧ c.toNat ≤ 122) ∨
      65 ≤ c.toNat ∧ c.toNat ≤ 90 := by
    have hlower : c.isLower = (decide (97 ≤ c.val) && decide (c.val ≤ 122)) := rfl
    have hupper : c.isUpper = decide (65 ≤ c.val ∧ c.val ≤ 90) := rfl
    simpa [Char.isDigit, hlower, hupper, UInt32.le_iff_toNat_le] using hkind
  omega

section Base
variable {base : Nat} {c : Char} {d n : Nat} {s : List Char} {ds : List Nat}

theorem isDigit_iff (hbase : base ≤ 16) :
    IsDigit base c d ↔ digitValue? c = some d ∧ d < base := by
  have hwritten : ∀ d < 16, digitValue? (Nat.digitChar d) = some d ∧
      digitValue? (Nat.digitChar d).toUpper = some d := by decide
  constructor
  · rintro ⟨hd, hc⟩
    obtain ⟨hlower, hupper⟩ := hwritten d (by omega)
    rcases hc with rfl | rfl
    · exact ⟨hlower, hd⟩
    · exact ⟨hupper, hd⟩
  · rintro ⟨hvalue, hd⟩
    have hread : ∀ d < 16, digitValue? c = some d →
        c = Nat.digitChar d ∨ c = (Nat.digitChar d).toUpper :=
      Text.forall_ascii (P := fun c => ∀ d < 16, digitValue? c = some d →
        c = Nat.digitChar d ∨ c = (Nat.digitChar d).toUpper) (by decide +kernel)
        (toNat_lt_of_digitValue? hvalue)
    exact ⟨hd, hread d (by omega) hvalue⟩

theorem isDigitOf_iff (hbase : base ≤ 16) : isDigitOf base c = true ↔ ∃ d, IsDigit base c d := by
  simp only [isDigit_iff hbase, isDigitOf]
  cases digitValue? c <;> simp

theorem IsDigit.ne_underscore (h : IsDigit base c d) (hbase : base ≤ 16) : c ≠ '_' := by
  rintro rfl
  have hvalue := ((isDigit_iff hbase).mp h).1
  cases hvalue

theorem Digits.exists_head (h : Digits base s ds) :
    ∃ c t d es, s = c :: t ∧ ds = d :: es ∧ IsDigit base c d := by
  cases h with
  | one digit => exact ⟨_, _, _, _, rfl, rfl, digit⟩
  | next digit _ => exact ⟨_, _, _, _, rfl, rfl, digit⟩
  | apart digit _ => exact ⟨_, _, _, _, rfl, rfl, digit⟩

theorem Digits.ne_nil (h : Digits base s ds) : s ≠ [] := by
  obtain ⟨c, t, -, -, rfl, -, -⟩ := h.exists_head
  exact List.cons_ne_nil c t

theorem Digits.head?_ne_underscore (h : Digits base s ds) (hbase : base ≤ 16) :
    s.head? ≠ some '_' := by
  obtain ⟨c, t, d, -, rfl, -, digit⟩ := h.exists_head
  simpa using digit.ne_underscore hbase

/-- Without the underscores, there is one character for each digit. -/
theorem Digits.filter (h : Digits base s ds) (hbase : base ≤ 16) :
    List.Forall₂ (IsDigit base) (s.filter (· != '_')) ds := by
  induction h with
  | one digit => simpa [digit.ne_underscore hbase] using digit
  | next digit _ ih => simpa [digit.ne_underscore hbase] using ⟨digit, ih⟩
  | apart digit _ ih => simpa [digit.ne_underscore hbase] using ⟨digit, ih⟩

theorem Digits.isDigitOf (h : Digits base s ds) (hbase : base ≤ 16) :
    ∀ c ∈ s, c ≠ '_' → Number.isDigitOf base c = true := by
  induction h with
  | one digit => simpa using fun _ => (isDigitOf_iff hbase).mpr ⟨_, digit⟩
  | next digit _ ih => simpa using ⟨fun _ => (isDigitOf_iff hbase).mpr ⟨_, digit⟩, ih⟩
  | apart digit _ ih => simpa using ⟨fun _ => (isDigitOf_iff hbase).mpr ⟨_, digit⟩, ih⟩

theorem hasDoubleUnderscore_cons (c : Char) (s : List Char) :
    hasDoubleUnderscore (c :: s) =
      (c == '_' && s.head? == some '_' || hasDoubleUnderscore s) := by
  by_cases hc : c = '_'
  · subst hc
    cases s with
    | nil => rfl
    | cons d rest =>
      by_cases hd : d = '_'
      · subst hd
        simp [hasDoubleUnderscore]
      · rw [hasDoubleUnderscore]
        · simp [hd]
        · simp [hd]
  · rw [hasDoubleUnderscore]
    · simp [hc]
    · simp [hc]

theorem Digits.underscores (h : Digits base s ds) (hbase : base ≤ 16) :
    s.getLast? ≠ some '_' ∧ hasDoubleUnderscore s = false := by
  induction h with
  | one digit =>
    have hc := digit.ne_underscore hbase
    simp [hasDoubleUnderscore_cons, hasDoubleUnderscore, hc]
  | next digit rest ih =>
    have hc := digit.ne_underscore hbase
    rw [List.getLast?_cons_of_ne_nil rest.ne_nil, hasDoubleUnderscore_cons]
    simpa [hc] using ih
  | apart digit rest ih =>
    have hc := digit.ne_underscore hbase
    have hhead := rest.head?_ne_underscore hbase
    rw [List.getLast?_cons_of_ne_nil (List.cons_ne_nil _ _),
      List.getLast?_cons_of_ne_nil rest.ne_nil, hasDoubleUnderscore_cons, hasDoubleUnderscore_cons]
    simpa [hc, hhead] using ih

/-- Where the underscores stand as they may, everything else being a digit, there is a numeral. -/
theorem exists_digits (hbase : base ≤ 16) (hne : s ≠ []) (hfirst : s.head? ≠ some '_')
    (hlast : s.getLast? ≠ some '_') (hdouble : hasDoubleUnderscore s = false)
    (hdigits : ∀ c ∈ s, c ≠ '_' → isDigitOf base c = true) : ∃ ds, Digits base s ds := by
  induction s using List.twoStepInduction with
  | nil => exact absurd rfl hne
  | singleton c =>
    have hc : c ≠ '_' := by simpa using hfirst
    obtain ⟨d, hd⟩ := (isDigitOf_iff hbase).mp (hdigits c List.mem_cons_self hc)
    exact ⟨[d], .one hd⟩
  | cons_cons c e rest ih ih' =>
    have hc : c ≠ '_' := by simpa using hfirst
    obtain ⟨d, hd⟩ := (isDigitOf_iff hbase).mp (hdigits c List.mem_cons_self hc)
    rw [List.getLast?_cons_cons] at hlast
    have hdouble' : hasDoubleUnderscore (e :: rest) = false := by
      simpa [hasDoubleUnderscore_cons c, hc] using hdouble
    have hdigits' := fun x hx => hdigits x (List.mem_cons_of_mem c hx)
    by_cases he : e = '_'
    · -- behind an underscore there is something, and it is no underscore
      subst he
      have hrest : rest ≠ [] := by
        rintro rfl
        exact hlast rfl
      rw [hasDoubleUnderscore_cons, Bool.or_eq_false_iff] at hdouble'
      rw [List.getLast?_cons_of_ne_nil hrest] at hlast
      obtain ⟨ds, hds⟩ := ih hrest (by simpa using hdouble'.1) hlast hdouble'.2
        fun x hx => hdigits' x (List.mem_cons_of_mem '_' hx)
      exact ⟨d :: ds, .apart hd hds⟩
    · have hfirst' : (e :: rest).head? ≠ some '_' := by simpa using he
      obtain ⟨ds, hds⟩ := ih' e (List.cons_ne_nil e rest) hfirst' hlast hdouble' hdigits'
      exact ⟨d :: ds, .next hd hds⟩

theorem ofDigits_eq (hbase : base ≤ 16) (h : List.Forall₂ (IsDigit base) s ds) :
    ofDigits base s = Nat.ofDigits base ds.reverse := by
  have hfrom : ∀ start, s.foldl (fun n c => n * base + (digitValue? c).getD 0) start =
      ds.foldl (fun n d => d + base * n) start := by
    induction h with
    | nil => exact fun start => rfl
    | @cons c d s ds digit _ ih =>
      intro start
      rw [List.foldl_cons, List.foldl_cons, ih, ((isDigit_iff hbase).mp digit).1, Option.getD_some,
        Nat.add_comm, Nat.mul_comm]
  rw [Nat.ofDigits_eq_foldr, List.foldr_reverse]
  exact hfrom 0

theorem readGrouped?_of_head? (hbase : base ≤ 16) (hfirst : s.head? ≠ some '_') :
    readGrouped? base s = some n ↔ ∃ ds, Digits base s ds ∧ n = Nat.ofDigits base ds.reverse := by
  rw [readGrouped?]
  constructor
  · intro h
    split at h
    · rename_i hfits
      simp only [underscoresFit, Bool.and_eq_true, bne_iff_ne, Bool.not_eq_true',
        List.isEmpty_eq_false_iff, List.all_eq_true, List.mem_filter] at hfits
      obtain ⟨⟨⟨⟨-, hlast⟩, hdouble⟩, hne⟩, hdigits⟩ := hfits
      have hs : s ≠ [] := by
        rintro rfl
        exact hne rfl
      obtain ⟨ds, hds⟩ := exists_digits hbase hs hfirst hlast hdouble
        fun c hc hplain => hdigits c ⟨hc, hplain⟩
      exact ⟨ds, hds, by rw [← Option.some.inj h, ofDigits_eq hbase (hds.filter hbase)]⟩
    · cases h
  · rintro ⟨ds, hds, rfl⟩
    have hplain := hds.filter hbase
    obtain ⟨hlast, hdouble⟩ := hds.underscores hbase
    have hall : (s.filter (· != '_')).all (isDigitOf base) = true := by
      simpa [← or_iff_not_imp_left] using hds.isDigitOf hbase
    have hne : (s.filter (· != '_')).isEmpty = false := by
      rw [List.isEmpty_eq_false_iff]
      intro hnil
      rw [hnil, List.forall₂_nil_left_iff] at hplain
      cases hds <;> cases hplain
    have hfit : underscoresFit base s = true := by simp [underscoresFit, hfirst, hlast, hdouble]
    simp only [ofDigits_eq hbase hplain, hfit, hne, hall, Bool.not_false, Bool.and_true, if_true]

theorem readGrouped?_ten :
    readGrouped? 10 s = some n ↔ ∃ ds, Digits 10 s ds ∧ n = Nat.ofDigits 10 ds.reverse := by
  by_cases hfirst : s.head? = some '_'
  · have hnone : readGrouped? 10 s = none := by simp [readGrouped?, underscoresFit, hfirst]
    rw [hnone]
    simp only [reduceCtorEq, false_iff]
    rintro ⟨ds, hds, -⟩
    exact hds.head?_ne_underscore (by decide) hfirst
  · exact readGrouped?_of_head? (by decide) hfirst

/-- One underscore in front is passed over, unless the base has no mark. -/
theorem readGrouped?_underscore (hmark : base ≠ 10) (s : List Char) :
    readGrouped? base ('_' :: s) = if s.head? = some '_' then none else readGrouped? base s := by
  rw [readGrouped?, readGrouped?, underscoresFit, underscoresFit, hasDoubleUnderscore_cons]
  by_cases hsecond : s.head? = some '_'
  · simp [hsecond]
  · cases s with
    | nil => simp
    | cons c rest =>
      have hc : c ≠ '_' := by simpa using hsecond
      rw [List.getLast?_cons_cons]
      simp [hmark, hc]

theorem readGrouped?_marked (hbase : base ≤ 16) (hmark : base ≠ 10) :
    readGrouped? base s = some n ↔
      ∃ ds, MarkedDigits base s ds ∧ n = Nat.ofDigits base ds.reverse := by
  by_cases hfirst : s.head? = some '_'
  · obtain ⟨t, rfl⟩ := List.head?_eq_some_iff.mp hfirst
    have hmarked : ∀ ds, MarkedDigits base ('_' :: t) ds ↔ Digits base t ds := by
      intro ds
      constructor
      · rintro (hds | hds)
        · exact absurd rfl (hds.head?_ne_underscore hbase)
        · exact hds
      · exact .apart
    simp only [hmarked, readGrouped?_underscore hmark]
    split
    · rename_i hsecond
      simp only [reduceCtorEq, false_iff]
      rintro ⟨ds, hds, -⟩
      exact hds.head?_ne_underscore hbase hsecond
    · rename_i hsecond
      exact readGrouped?_of_head? hbase hsecond
  · have hmarked : ∀ ds, MarkedDigits base s ds ↔ Digits base s ds := by
      intro ds
      constructor
      · rintro (hds | hds)
        · exact hds
        · exact absurd rfl hfirst
      · exact .next
    simp only [hmarked]
    exact readGrouped?_of_head? hbase hfirst

end Base

section Numerals
variable {s t : List Char} {n : Nat}

theorem splitBase_cases (s : List Char) :
    (∃ mark base t, (mark, base) ∈ baseMarks ∧ s = '0' :: mark :: t ∧ splitBase s = (base, t)) ∨
      (∃ c t, (∀ base, (c, base) ∉ baseMarks) ∧ s = '0' :: c :: t ∧
        splitBase s = (8, c :: t)) ∨
      (s = ['0'] ∨ s.head? ≠ some '0') ∧ splitBase s = (10, s) := by
  unfold splitBase
  split
  case h_7 c t hx hX ho hO hb hB =>
    refine .inr (.inl ⟨c, t, ?_, rfl, rfl⟩)
    intro base hmark
    simp only [baseMarks, List.mem_cons, Prod.mk.injEq, List.not_mem_nil, or_false] at hmark
    grind
  case h_8 hx hX ho hO hb hB hzero =>
    refine .inr (.inr ⟨?_, rfl⟩)
    rcases s with _ | ⟨c, t⟩
    · exact .inr (by simp)
    · by_cases hc : c = '0'
      · subst hc
        cases t with
        | nil => exact .inl rfl
        | cons e t => exact absurd rfl (hzero e t)
      · exact .inr (by simpa using hc)
  all_goals exact .inl ⟨_, _, _, by decide, rfl, rfl⟩

/-- A mark is no digit of the base eight, so that it cannot be taken for the first one. -/
theorem not_markedDigits_of_mark {mark : Char} {base : Nat} {ds : List Nat}
    (hmark : (mark, base) ∈ baseMarks) : ¬MarkedDigits 8 (mark :: t) ds := by
  have hother : ∀ p ∈ baseMarks, p.1 ≠ '_' ∧ isDigitOf 8 p.1 = false := by decide
  obtain ⟨hunderscore, hdigit⟩ := hother _ hmark
  rintro (hds | hds)
  · rw [hds.isDigitOf (by decide) mark List.mem_cons_self hunderscore] at hdigit
    cases hdigit
  · exact hunderscore rfl

theorem Digits.head_eq_zero_iff {base d : Nat} {ds : List Nat} (h : Digits base s (d :: ds))
    (hbase : base ≤ 16) : d = 0 ↔ s.head? = some '0' := by
  obtain ⟨c, t, e, es, rfl, hds, digit⟩ := h.exists_head
  obtain ⟨rfl, rfl⟩ := List.cons.inj hds
  rw [List.head?_cons, Option.some.injEq]
  constructor
  · rintro rfl
    exact digit.2.elim id id
  · rintro rfl
    exact (Option.some.inj ((isDigit_iff hbase).mp digit).1).symm

theorem numeral_marked_iff {mark : Char} {base : Nat} (hmark : (mark, base) ∈ baseMarks) :
    Numeral ('0' :: mark :: t) n ↔
      ∃ ds, MarkedDigits base t ds ∧ n = Nat.ofDigits base ds.reverse := by
  constructor
  · intro h
    cases h with
    | decimal digits leading => exact absurd ((digits.head_eq_zero_iff (by decide)).mpr rfl) leading
    | @marked _ other _ ds known digits =>
      have honce : ∀ p ∈ baseMarks, ∀ q ∈ baseMarks, p.1 = q.1 → p.2 = q.2 := by decide
      obtain rfl : other = base := honce _ known _ hmark rfl
      exact ⟨ds, digits, rfl⟩
    | octal digits => exact absurd digits (not_markedDigits_of_mark hmark)
  · rintro ⟨ds, hds, rfl⟩
    exact .marked hmark hds

theorem numeral_octal_iff {c : Char} (hmark : ∀ base, (c, base) ∉ baseMarks) :
    Numeral ('0' :: c :: t) n ↔
      ∃ ds, MarkedDigits 8 (c :: t) ds ∧ n = Nat.ofDigits 8 ds.reverse := by
  constructor
  · intro h
    cases h with
    | decimal digits leading => exact absurd ((digits.head_eq_zero_iff (by decide)).mpr rfl) leading
    | marked known _ => exact absurd known (hmark _)
    | octal digits => exact ⟨_, digits, rfl⟩
  · rintro ⟨ds, hds, rfl⟩
    exact .octal hds

theorem not_markedDigits_nil {base : Nat} {ds : List Nat} : ¬MarkedDigits base [] ds := by
  rintro (hds | -)
  exact hds.ne_nil rfl

theorem numeral_decimal_iff (hs : s = ['0'] ∨ s.head? ≠ some '0') :
    Numeral s n ↔ ∃ ds, Digits 10 s ds ∧ n = Nat.ofDigits 10 ds.reverse := by
  constructor
  · intro h
    cases h with
    | zero => exact ⟨[0], .one ⟨by decide, .inl rfl⟩, rfl⟩
    | decimal digits _ => exact ⟨_, digits, rfl⟩
    | marked _ _ => simp at hs
    | octal digits =>
      rcases hs with hs | hs
      · rw [(List.cons.inj hs).2] at digits
        exact absurd digits not_markedDigits_nil
      · exact absurd rfl hs
  · rintro ⟨ds, hds, rfl⟩
    obtain ⟨c, t, d, es, rfl, rfl, digit⟩ := hds.exists_head
    by_cases hd : d = 0
    · have hzero := (hds.head_eq_zero_iff (by decide)).mp hd
      obtain ⟨rfl, rfl⟩ := List.cons.inj (hs.resolve_right (not_not_intro hzero))
      cases hds with
      | one _ => exact hd ▸ .zero
      | next _ rest => exact absurd rfl rest.ne_nil
    · exact .decimal hds hd

/-- The digits behind the mark are read exactly when the grammar has a numeral. -/
theorem numeral_iff : Numeral s n ↔ readGrouped? (splitBase s).1 (splitBase s).2 = some n := by
  rcases splitBase_cases s with ⟨mark, base, t, hmark, rfl, hsplit⟩ | ⟨c, t, hmark, rfl, hsplit⟩ |
    ⟨hs, hsplit⟩
  · have hbase : ∀ p ∈ baseMarks, p.2 ≤ 16 ∧ p.2 ≠ 10 := by decide
    obtain ⟨hle, hne⟩ := hbase _ hmark
    rw [hsplit, numeral_marked_iff hmark, readGrouped?_marked hle hne]
  · have hbase : 8 ≤ 16 ∧ 8 ≠ 10 := by decide
    rw [hsplit, numeral_octal_iff hmark, readGrouped?_marked hbase.1 hbase.2]
  · rw [hsplit, numeral_decimal_iff hs, readGrouped?_ten]

theorem Numeral.head?_ne_sign (h : Numeral s n) : s.head? ≠ some '-' ∧ s.head? ≠ some '+' := by
  have hdigit : ∀ {t : List Char} {ds : List Nat}, Digits 10 t ds →
      t.head? ≠ some '-' ∧ t.head? ≠ some '+' := by
    intro t ds hds
    obtain ⟨c, t, d, -, rfl, -, digit⟩ := hds.exists_head
    have hvalue := ((isDigit_iff (by decide)).mp digit).1
    constructor <;> intro hsign <;> cases hsign <;> cases hvalue
  cases h with
  | zero => decide
  | decimal digits _ => exact hdigit digits
  | marked _ _ => simp
  | octal _ => simp

/-- Nothing is lost with the sign: a numeral does not start with one. -/
theorem denotesInteger_iff {n : Int} :
    DenotesInteger s n ↔ ∃ value : Nat, Numeral (takeSign s).2 value ∧
      n = if (takeSign s).1 then -(value : Int) else value := by
  constructor
  · intro h
    cases h with
    | unsigned numeral =>
      obtain ⟨hminus, hplus⟩ := numeral.head?_ne_sign
      rw [takeSign_unsigned hminus hplus]
      exact ⟨_, numeral, rfl⟩
    | plus numeral => exact ⟨_, numeral, rfl⟩
    | minus numeral => exact ⟨_, numeral, rfl⟩
  · rintro ⟨value, hvalue, rfl⟩
    revert hvalue
    unfold takeSign
    split
    · exact .minus
    · exact .plus
    · exact .unsigned

theorem DenotesInteger.unique {n m : Int} (hn : DenotesInteger s n) (hm : DenotesInteger s m) :
    n = m := by
  obtain ⟨value, hvalue, rfl⟩ := denotesInteger_iff.mp hn
  obtain ⟨other, hother, rfl⟩ := denotesInteger_iff.mp hm
  rw [numeral_iff] at hvalue hother
  rw [hvalue] at hother
  cases hother
  rfl

end Numerals

/-- A text denotes at most one whole number. It is read exactly when it denotes one of 64 bits, and
then it is read as that number. Any other text is refused as a whole. -/
theorem readInt_notation (raw : String) :
    (∀ n m, DenotesInteger raw.toList n → DenotesInteger raw.toList m → n = m) ∧
      (∀ n, readInt raw = .ok n ↔ DenotesInteger raw.toList n ∧ -2 ^ 63 ≤ n ∧ n ≤ 2 ^ 63 - 1) ∧
      (readInt raw = .error (.invalidNumber raw) ↔
        ¬∃ n, DenotesInteger raw.toList n ∧ -2 ^ 63 ≤ n ∧ n ≤ 2 ^ 63 - 1) := by
  have hread : ∀ n, readInteger? raw.toList = some n ↔
      DenotesInteger raw.toList n ∧ -2 ^ 63 ≤ n ∧ n ≤ 2 ^ 63 - 1 := by
    intro n
    rw [readInteger?_eq_some_iff, denotesInteger_iff]
    simp only [numeral_iff, ← and_assoc, exists_and_right]
  refine ⟨fun _ _ => DenotesInteger.unique, ?_⟩
  simp only [← hread, readInt]
  cases readInteger? raw.toList <;> simp [orError]

end UnitFiles.Number

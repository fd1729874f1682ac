/-! Numbers in words of a fixed width. What does not fit is refused, so that a word that comes out
is the exact result. -/
namespace UnitFiles.Number
variable {width : Nat}

def word? (width n : Nat) : Option (BitVec width) :=
  let word := BitVec.ofNat width n
  if word.toNat = n then some word else none

def addWords? (a b : BitVec width) : Option (BitVec width) :=
  if BitVec.uaddOverflow a b then none else some (a + b)

def mulWords? (a b : BitVec width) : Option (BitVec width) :=
  if BitVec.umulOverflow a b then none else some (a * b)

theorem word?_eq_some_iff {n : Nat} {a : BitVec width} :
    word? width n = some a ↔ a.toNat = n := by
  simp only [word?]
  split
  · rename_i hfits
    rw [Option.some.injEq, BitVec.toNat_eq, hfits, eq_comm]
  · rename_i hlarge
    simp only [reduceCtorEq, false_iff]
    rintro rfl
    rw [BitVec.ofNat_toNat, BitVec.setWidth_eq] at hlarge
    exact hlarge rfl

theorem addWords?_eq_some_iff {a b c : BitVec width} :
    addWords? a b = some c ↔ c.toNat = a.toNat + b.toNat := by
  rw [addWords?]
  split
  · rename_i hoverflow
    have hlarge := of_decide_eq_true hoverflow
    have hc := c.isLt
    simp only [reduceCtorEq, false_iff]
    omega
  · rename_i hfits
    rw [Option.some.injEq, BitVec.toNat_eq, BitVec.toNat_add_of_not_uaddOverflow hfits, eq_comm]

theorem mulWords?_eq_some_iff {a b c : BitVec width} :
    mulWords? a b = some c ↔ c.toNat = a.toNat * b.toNat := by
  rw [mulWords?]
  split
  · rename_i hoverflow
    have hlarge := of_decide_eq_true hoverflow
    have hc := c.isLt
    simp only [reduceCtorEq, false_iff]
    omega
  · rename_i hfits
    rw [Option.some.injEq, BitVec.toNat_eq, BitVec.toNat_mul_of_not_umulOverflow hfits, eq_comm]

end UnitFiles.Number

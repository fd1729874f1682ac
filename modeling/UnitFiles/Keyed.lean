/-! Values under names, kept in the code point order of the names. -/
namespace UnitFiles

/-- A list of named values, each name once, in increasing order. -/
abbrev Keyed (α : Type) := List (String × α)

namespace Keyed
variable {α : Type}

/-- Puts a value under a name, in place of an earlier one of that name. -/
def put (name : String) (a : α) : Keyed α → Keyed α
  | [] => [(name, a)]
  | (n, b) :: rest =>
    if name = n then (name, a) :: rest
    else if name < n then (name, a) :: (n, b) :: rest
    else (n, b) :: put name a rest

def ofList (pairs : List (String × α)) : Keyed α :=
  pairs.foldl (fun m p => put p.1 p.2 m) []

def get? (name : String) (m : Keyed α) : Option α := (m.find? fun p => p.1 == name).map Prod.snd

theorem get?_put_self (name : String) (a : α) (m : Keyed α) :
    get? name (put name a m) = some a := by
  induction m with
  | nil => simp [put, get?]
  | cons p rest ih =>
    obtain ⟨n, b⟩ := p
    unfold put
    split
    · simp [get?]
    · split
      · simp [get?]
      · rename_i hne _
        simpa [get?, Ne.symm hne] using ih

theorem get?_put_of_ne {name other : String} (h : other ≠ name) (a : α) (m : Keyed α) :
    get? other (put name a m) = get? other m := by
  induction m with
  | nil => simp [put, get?, Ne.symm h]
  | cons p rest ih =>
    obtain ⟨n, b⟩ := p
    unfold put
    split
    · rename_i he
      simp [get?, ← he, Ne.symm h]
    · split
      · simp [get?, Ne.symm h]
      · by_cases hn : n = other
        · simp [get?, hn]
        · simpa [get?, hn] using ih

end Keyed
end UnitFiles

import UnitFiles.Environment
import UnitFiles.Proofs.Pieces

/-! What the name of a variable spells: the lead in any case of its ASCII letters, and behind it
parts between underscores for the section, its index and the option. A name can be taken apart in
one way only, as a number counts as an index whenever more parts follow it. -/
namespace UnitFiles
open Text

namespace Text
variable {sep : Char}

theorem splitAll_join {pieces : List (List Char)} (h : ∀ piece ∈ pieces, sep ∉ piece)
    (hne : pieces ≠ []) : splitAll sep (join [sep] pieces) = pieces := by
  induction pieces with
  | nil => contradiction
  | cons piece rest ih =>
    obtain ⟨hpiece, hrest⟩ := List.forall_mem_cons.mp h
    by_cases hnil : rest = []
    · rw [hnil, join, splitAll_eq_singleton hpiece]
    · rw [join_cons hnil, splitAll_append_sep, splitAll_eq_singleton hpiece, ih hrest hnil]
      rfl

end Text

namespace Environment
variable {lead name : String}

/-- The name is the lead in some case, followed by parts with an underscore before each. -/
def HasParts (lead name : String) (parts : List (List Char)) : Prop :=
  ∃ start, start.map Char.toLower = lead.toList.map Char.toLower ∧
    name.toList = start ++ '_' :: join ['_'] parts ∧ ∀ part ∈ parts, '_' ∉ part

/-- The section is named by the first part, in lowercase. The second part is an index if it is a
number and not the last part; all other parts make up the name of the option. -/
inductive Spells (lead name : String) : Address → Prop
  | indexed {part number next : List Char} {rest : List (List Char)} {index : Nat} :
      HasParts lead name (part :: number :: next :: rest) → readIndex? number = some index →
      Spells lead name
        ⟨.ofList (lower part), index, .ofList (join ['_'] (next :: rest))⟩
  | plain {part next : List Char} {rest : List (List Char)} :
      HasParts lead name (part :: next :: rest) → readIndex? next = none ∨ rest = [] →
      Spells lead name ⟨.ofList (lower part), 0, .ofList (join ['_'] (next :: rest))⟩

theorem afterLead?_eq_some_iff {p s rest : List Char} :
    afterLead? p s = some rest ↔
      ∃ start, start.map Char.toLower = p.map Char.toLower ∧ s = start ++ rest :=
  dropStartBy?_eq_some_iff

theorem hasParts_iff {parts : List (List Char)} (hne : parts ≠ []) :
    HasParts lead name parts ↔ ∃ rest,
      afterLead? lead.toList name.toList = some ('_' :: rest) ∧ splitAll '_' rest = parts := by
  constructor
  · rintro ⟨start, hstart, hname, hparts⟩
    exact ⟨_, afterLead?_eq_some_iff.mpr ⟨start, hstart, hname⟩, splitAll_join hparts hne⟩
  · rintro ⟨rest, hrest, rfl⟩
    obtain ⟨start, hstart, hname⟩ := afterLead?_eq_some_iff.mp hrest
    exact ⟨start, hstart, by rw [hname, join_splitAll], fun _ => not_mem_of_mem_splitAll⟩

theorem ofName?_eq_some_iff_ofParts? {a : Address} :
    Address.ofName? lead name = some a ↔
      ∃ parts, parts ≠ [] ∧ HasParts lead name parts ∧ Address.ofParts? parts = some a := by
  rw [Address.ofName?.eq_def]
  constructor
  · intro h
    split at h
    · rename_i rest hrest
      refine ⟨_, splitAll_ne_nil rest, ?_, h⟩
      exact (hasParts_iff (splitAll_ne_nil rest)).mpr ⟨rest, hrest, rfl⟩
    · cases h
  · rintro ⟨parts, hne, hparts, h⟩
    obtain ⟨rest, hrest, rfl⟩ := (hasParts_iff hne).mp hparts
    simp only [hrest, h]

theorem ofParts?_indexed {part number next : List Char} {rest : List (List Char)} {index : Nat}
    (h : readIndex? number = some index) :
    Address.ofParts? (part :: number :: next :: rest) =
      some ⟨.ofList (lower part), index, .ofList (join ['_'] (next :: rest))⟩ := by
  simp only [Address.ofParts?, h]

theorem ofParts?_plain {part next : List Char} {rest : List (List Char)}
    (h : readIndex? next = none ∨ rest = []) :
    Address.ofParts? (part :: next :: rest) =
      some ⟨.ofList (lower part), 0, .ofList (join ['_'] (next :: rest))⟩ := by
  rcases h with h | rfl
  · simp only [Address.ofParts?, h]
  · cases hindex : readIndex? next <;> simp only [Address.ofParts?, hindex]

theorem ofName?_eq_some_iff {a : Address} :
    Address.ofName? lead name = some a ↔ Spells lead name a := by
  rw [ofName?_eq_some_iff_ofParts?]
  constructor
  · rintro ⟨parts, -, hparts, h⟩
    match parts with
    | [] => cases h
    | [_] => cases h
    | part :: second :: rest =>
      cases hindex : readIndex? second with
      | none =>
        rw [ofParts?_plain (Or.inl hindex)] at h
        cases h
        exact .plain hparts (Or.inl hindex)
      | some index =>
        cases rest with
        | nil =>
          rw [ofParts?_plain (Or.inr rfl)] at h
          cases h
          exact .plain hparts (Or.inr rfl)
        | cons next rest =>
          rw [ofParts?_indexed hindex] at h
          cases h
          exact .indexed hparts hindex
  · intro h
    cases h with
    | indexed hparts hindex => exact ⟨_, by simp, hparts, ofParts?_indexed hindex⟩
    | plain hparts hplain => exact ⟨_, by simp, hparts, ofParts?_plain hplain⟩

theorem Spells.unique {a b : Address} (ha : Spells lead name a) (hb : Spells lead name b) :
    a = b := by
  rw [← ofName?_eq_some_iff] at ha hb
  exact Option.some.inj (ha.symm.trans hb)

end Environment
end UnitFiles

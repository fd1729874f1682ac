import Mathlib.Data.List.Sort
import Mathlib.Data.String.Basic
import UnitFiles.Json.Reader
import UnitFiles.Proofs.Groups
import UnitFiles.Proofs.JsonText

/-! The text of a dynamic value is read as the tree of that value, and the tree is the value again
if arrays and objects are not nested too deep in it. -/
namespace UnitFiles

/-- Names that increase already are kept as they are. -/
theorem Keyed.ofList_eq {α : Type} {m : Keyed α} (h : m.Ordered) : ofList m = m := by
  have distinct : (m.map Prod.fst).Nodup :=
    List.pairwise_map.mpr (h.imp fun hlt => ne_of_lt hlt)
  exact (ordered_ofList m).eq_of_mem_iff h fun _ => mem_ofList distinct

namespace Json

mutual

def tree : Json → Tree
  | null => .null
  | bool b => .bool b
  | int n => .number (some (.int n))
  | float x => .number (some (.float x))
  | text s => .text (some s)
  | array items => .array (trees items)
  | object fields => .object (treeFields fields)

def trees : List Json → List Tree
  | [] => []
  | v :: rest => v.tree :: trees rest

def treeFields : List (String × Json) → List (Option String × Tree)
  | [] => []
  | (name, v) :: rest => (some name, v.tree) :: treeFields rest

end

mutual

def depth : Json → Nat
  | array items => depthOfItems items + 1
  | object fields => depthOfFields fields + 1
  | _ => 0

def depthOfItems : List Json → Nat
  | [] => 0
  | v :: rest => max v.depth (depthOfItems rest)

def depthOfFields : List (String × Json) → Nat
  | [] => 0
  | (_, v) :: rest => max v.depth (depthOfFields rest)

end

/-- In each object of a value the names of the fields increase. -/
inductive Ordered : Json → Prop
  | null : Ordered .null
  | bool (b : Bool) : Ordered (.bool b)
  | int (n : Int) : Ordered (.int n)
  | text (s : String) : Ordered (.text s)
  | array {items : List Json} : (∀ v ∈ items, Ordered v) → Ordered (.array items)
  | object {fields : Keyed Json} : fields.Ordered → (∀ p ∈ fields, Ordered p.2) →
      Ordered (.object fields)

theorem trees_eq_map (items : List Json) : trees items = items.map tree := by
  induction items with
  | nil => rfl
  | cons v rest ih => rw [trees, ih, List.map_cons]

theorem treeFields_eq_map (fields : List (String × Json)) :
    treeFields fields = fields.map fun p => (some p.1, p.2.tree) := by
  induction fields with
  | nil => rfl
  | cons p rest ih => rw [treeFields, ih, List.map_cons]

theorem depthOfItems_le_iff {items : List Json} {n : Nat} :
    depthOfItems items ≤ n ↔ ∀ v ∈ items, v.depth ≤ n := by
  induction items with
  | nil => simp [depthOfItems]
  | cons v rest ih => rw [depthOfItems, Nat.max_le, ih, List.forall_mem_cons]

theorem depthOfFields_le_iff {fields : List (String × Json)} {n : Nat} :
    depthOfFields fields ≤ n ↔ ∀ p ∈ fields, p.2.depth ≤ n := by
  induction fields with
  | nil => simp [depthOfFields]
  | cons p rest ih => rw [depthOfFields, Nat.max_le, ih, List.forall_mem_cons]

section Reading

theorem exists_tokens_cons (v : Json) : ∃ t ts, v.tokens = t :: ts ∧ t ≠ .rightBracket := by
  cases v <;> exact ⟨_, _, rfl, by simp⟩

theorem exists_tokensOfItems_cons (v : Json) (items : List Json) :
    ∃ t ts, tokensOfItems (v :: items) = t :: ts ∧ t ≠ .rightBracket := by
  obtain ⟨t, ts, htokens, hne⟩ := exists_tokens_cons v
  cases items with
  | nil => exact ⟨t, ts, by rw [tokensOfItems, htokens], hne⟩
  | cons w more =>
    refine ⟨t, ts ++ .comma :: tokensOfItems (w :: more), ?_, hne⟩
    rw [tokensOfItems_cons, htokens]
    rfl

theorem exists_tokensOfFields_cons (p : String × Json) (fields : List (String × Json)) :
    ∃ t ts, tokensOfFields (p :: fields) = t :: ts ∧ t ≠ .rightBrace := by
  cases fields with
  | nil => exact ⟨.text (some p.1), _, rfl, by simp⟩
  | cons q more => exact ⟨.text (some p.1), _, tokensOfFields_cons p q more, by simp⟩

theorem takeTree_leftBracket {t : Token} (h : t ≠ .rightBracket) (fuel : Nat) (ts : List Token) :
    takeTree (fuel + 1) (.leftBracket :: t :: ts) =
      (takeItems fuel (t :: ts)).map fun p => (.array p.1, p.2) := by
  cases t <;> first | rfl | exact absurd rfl h

theorem takeTree_leftBrace {t : Token} (h : t ≠ .rightBrace) (fuel : Nat) (ts : List Token) :
    takeTree (fuel + 1) (.leftBrace :: t :: ts) =
      (takeFields fuel (t :: ts)).map fun p => (.object p.1, p.2) := by
  cases t <;> first | rfl | exact absurd rfl h

theorem takeItems_tokens {items : List Json}
    (h : ∀ v ∈ items, ∀ fuel : Nat, 2 * v.tokens.length ≤ fuel + 1 → ∀ rest,
      takeTree fuel (v.tokens ++ rest) = some (v.tree, rest))
    (hsome : items ≠ []) (fuel : Nat) (hfuel : 2 * (tokensOfItems items).length ≤ fuel)
    (rest : List Token) :
    takeItems fuel (tokensOfItems items ++ .rightBracket :: rest) = some (trees items, rest) := by
  induction items generalizing fuel with
  | nil => exact absurd rfl hsome
  | cons v items ih =>
    obtain ⟨hv, hitems⟩ := List.forall_mem_cons.mp h
    obtain ⟨t, ts, htokens, -⟩ := exists_tokens_cons v
    cases items with
    | nil =>
      rw [tokensOfItems] at hfuel ⊢
      obtain ⟨fuel, rfl⟩ : ∃ k, fuel = k + 1 := ⟨fuel - 1, by simp [htokens] at hfuel; omega⟩
      rw [takeItems, hv _ hfuel]
      rfl
    | cons w more =>
      rw [tokensOfItems_cons, List.length_append, List.length_cons] at hfuel
      obtain ⟨fuel, rfl⟩ : ∃ k, fuel = k + 1 := ⟨fuel - 1, by omega⟩
      have hmore := ih hitems (by simp) fuel (by omega)
      rw [tokensOfItems_cons, List.append_assoc, List.cons_append, takeItems, hv _ (by omega)]
      simp only [hmore]
      rfl

theorem takeFields_tokens {fields : List (String × Json)}
    (h : ∀ p ∈ fields, ∀ fuel : Nat, 2 * p.2.tokens.length ≤ fuel + 1 → ∀ rest,
      takeTree fuel (p.2.tokens ++ rest) = some (p.2.tree, rest))
    (hsome : fields ≠ []) (fuel : Nat) (hfuel : 2 * (tokensOfFields fields).length ≤ fuel)
    (rest : List Token) :
    takeFields fuel (tokensOfFields fields ++ .rightBrace :: rest) =
      some (treeFields fields, rest) := by
  induction fields generalizing fuel with
  | nil => exact absurd rfl hsome
  | cons p fields ih =>
    obtain ⟨name, v⟩ := p
    obtain ⟨hv, hfields⟩ := List.forall_mem_cons.mp h
    dsimp only at hv
    cases fields with
    | nil =>
      rw [tokensOfFields] at hfuel ⊢
      simp only [List.length_cons] at hfuel
      obtain ⟨fuel, rfl⟩ : ∃ k, fuel = k + 1 := ⟨fuel - 1, by omega⟩
      simp only [List.cons_append, takeFields, hv fuel (by omega)]
      rfl
    | cons q more =>
      rw [tokensOfFields_cons] at hfuel
      simp only [List.length_cons, List.length_append] at hfuel
      obtain ⟨fuel, rfl⟩ : ∃ k, fuel = k + 1 := ⟨fuel - 1, by omega⟩
      have hmore := ih hfields (by simp) fuel (by omega)
      rw [tokensOfFields_cons]
      simp only [List.cons_append, List.append_assoc, takeFields, hv fuel (by omega), hmore]
      rfl

/-- The tokens of a value are read as its tree, whatever comes after them. Reading takes at most two
steps for each token: one for a value, and one for the items or fields that it is the first of. -/
theorem Floatless.takeTree_tokens {v : Json} (h : v.Floatless) (fuel : Nat)
    (hfuel : 2 * v.tokens.length ≤ fuel + 1) (rest : List Token) :
    takeTree fuel (v.tokens ++ rest) = some (v.tree, rest) := by
  induction h generalizing fuel rest with
  | null | bool | int | text =>
    obtain ⟨fuel, rfl⟩ : ∃ k, fuel = k + 1 := ⟨fuel - 1, by simp [tokens] at hfuel; omega⟩
    rfl
  | @array items _ ih =>
    simp only [tokens, List.cons_append, List.length_cons, List.length_append,
      List.length_nil] at hfuel
    obtain ⟨fuel, rfl⟩ : ∃ k, fuel = k + 1 := ⟨fuel - 1, by omega⟩
    cases items with
    | nil => rfl
    | cons v items =>
      have htake := takeItems_tokens ih (by simp) fuel (by omega) rest
      obtain ⟨t, ts, htokens, hne⟩ := exists_tokensOfItems_cons v items
      rw [htokens] at htake
      rw [tokens, htokens, List.append_assoc]
      exact (takeTree_leftBracket hne fuel _).trans (congrArg _ htake)
  | @object fields _ ih =>
    simp only [tokens, List.cons_append, List.length_cons, List.length_append,
      List.length_nil] at hfuel
    obtain ⟨fuel, rfl⟩ : ∃ k, fuel = k + 1 := ⟨fuel - 1, by omega⟩
    cases fields with
    | nil => rfl
    | cons p fields =>
      have htake := takeFields_tokens ih (by simp) fuel (by omega) rest
      obtain ⟨t, ts, htokens, hne⟩ := exists_tokensOfFields_cons p fields
      rw [htokens] at htake
      rw [tokens, htokens, List.append_assoc]
      exact (takeTree_leftBrace hne fuel _).trans (congrArg _ htake)

theorem Floatless.tree?_render {v : Json} (h : v.Floatless) :
    tree? (.ofList v.render) = some v.tree := by
  have htake := h.takeTree_tokens (2 * v.tokens.length + 1) (by omega) []
  rw [List.append_nil] at htake
  rw [tree?, String.toList_ofList, h.tokens?_render, Option.bind_some, htake]

end Reading

section Values

theorem valueItems?_trees {items : List Json} {depth : Nat}
    (h : ∀ v ∈ items, v.tree.value? depth = if v.depth ≤ depth then some v else none) :
    valueItems? depth (trees items) = if depthOfItems items ≤ depth then some items else none := by
  induction items with
  | nil => simp [trees, valueItems?, depthOfItems]
  | cons v items ih =>
    obtain ⟨hv, hitems⟩ := List.forall_mem_cons.mp h
    rw [trees, valueItems?, hv, ih hitems, depthOfItems]
    split_ifs <;> first | rfl | omega

theorem valueFields?_treeFields {fields : List (String × Json)} {depth : Nat}
    (h : ∀ p ∈ fields, p.2.tree.value? depth = if p.2.depth ≤ depth then some p.2 else none) :
    valueFields? depth (treeFields fields) =
      if depthOfFields fields ≤ depth then some fields else none := by
  induction fields with
  | nil => simp [treeFields, valueFields?, depthOfFields]
  | cons p fields ih =>
    obtain ⟨name, v⟩ := p
    obtain ⟨hv, hfields⟩ := List.forall_mem_cons.mp h
    dsimp only at hv
    rw [treeFields, valueFields?, Option.bind_some, hv, ih hfields, depthOfFields]
    split_ifs <;> first | rfl | omega

/-- The tree of a value is the value again, if that is not nested too deep. -/
theorem Ordered.value?_tree {v : Json} (h : v.Ordered) (depth : Nat) :
    v.tree.value? depth = if v.depth ≤ depth then some v else none := by
  induction h generalizing depth with
  | null | bool | int | text => simp [tree, Tree.value?, Json.depth]
  | array _ ih =>
    cases depth with
    | zero => simp [tree, Tree.value?, Json.depth]
    | succ depth =>
      rw [tree, Tree.value?, valueItems?_trees fun v hv => ih v hv depth, Json.depth]
      split_ifs <;> first | rfl | omega
  | object hordered _ ih =>
    cases depth with
    | zero => simp [tree, Tree.value?, Json.depth]
    | succ depth =>
      rw [tree, Tree.value?, valueFields?_treeFields fun p hp => ih p hp depth, Json.depth]
      split_ifs with hshallow
      · rw [Option.map_some, ofFields, Keyed.ofList_eq hordered]
      · omega
      · omega
      · rfl

end Values

end Json
end UnitFiles

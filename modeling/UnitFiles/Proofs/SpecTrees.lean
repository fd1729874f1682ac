import UnitFiles.Spec.Reader
import UnitFiles.Proofs.JsonTrees

/-! Specs are read from the trees of their dynamic values as they were. A field that is left out
because it holds its default is given that default again. -/
namespace UnitFiles
open Text Json Json.Tree

namespace Json.Tree

theorem readAll_map {α β : Type} {write : β → α} {read : α → Option β} {P : β → Prop}
    [DecidablePred P] {l : List β}
    (h : ∀ b ∈ l, read (write b) = if P b then some b else none) :
    readAll read (l.map write) = if ∀ b ∈ l, P b then some l else none := by
  induction l with
  | nil => simp [readAll]
  | cons b l ih =>
    obtain ⟨hb, hl⟩ := List.forall_mem_cons.mp h
    rw [List.map_cons, readAll, hb, ih hl]
    by_cases hhead : P b <;> by_cases hrest : ∀ b ∈ l, P b
    all_goals simp [hhead, hrest]

theorem readAll_map_some {α β : Type} {write : β → α} {read : α → Option β} {l : List β}
    (h : ∀ b ∈ l, read (write b) = some b) : readAll read (l.map write) = some l := by
  have hall := readAll_map (P := fun _ => True) fun b hb => (h b hb).trans (if_pos trivial).symm
  exact hall.trans (if_pos fun _ _ => trivial)

def fieldTrees (fields : List (String × Json)) : List (String × Tree) :=
  fields.map fun p => (p.1, p.2.tree)

theorem names?_treeFields (fields : List (String × Json)) :
    names? (treeFields fields) = some (fieldTrees fields) := by
  induction fields with
  | nil => rfl
  | cons p fields ih =>
    rw [names?] at ih ⊢
    rw [treeFields, readAll, ih]
    rfl

theorem record?_tree {fields : List (String × Json)} (distinct : (fields.map Prod.fst).Nodup)
    (names : List String) (exact : Bool) :
    (Json.object fields).tree.record? names exact = some (fieldTrees fields) := by
  have hknown : (((fieldTrees fields).map Prod.fst).filter names.contains).Nodup := by
    rw [fieldTrees, List.map_map]
    exact distinct.filter _
  rw [Json.tree, record?, names?_treeFields, Option.bind_some]
  exact if_pos hknown

theorem record?_pair {first second : String} (h : first ≠ second) (v w : Json)
    (names : List String) (exact : Bool) :
    (Json.object [(first, v), (second, w)]).tree.record? names exact =
      some (fieldTrees [(first, v), (second, w)]) :=
  record?_tree (by simpa using h) names exact

theorem lookup_fieldTrees (fields : List (String × Json)) (name : String) :
    (fieldTrees fields).lookup name = (fields.lookup name).map Json.tree := by
  induction fields with
  | nil => rfl
  | cons p fields ih =>
    rw [fieldTrees] at ih ⊢
    rw [List.map_cons, List.lookup_cons, List.lookup_cons, ih]
    split <;> rfl

end Json.Tree

namespace OptionSpec

/-- The fields that are written, of those that have a value. -/
def written (slots : List (String × Option Json)) : List (String × Json) :=
  slots.filterMap fun p => p.2.map fun v => (p.1, v)

theorem written_cons (name : String) (slot : Option Json) (slots : List (String × Option Json)) :
    written ((name, slot) :: slots) = (slot.map fun v => (name, v)).toList ++ written slots := by
  cases slot <;> rfl

theorem mem_written {slots : List (String × Option Json)} {name : String} {v : Json} :
    (name, v) ∈ written slots ↔ (name, some v) ∈ slots := by
  simp [written, List.mem_filterMap]

theorem names_written (slots : List (String × Option Json)) :
    ((written slots).map Prod.fst).Sublist (slots.map Prod.fst) := by
  induction slots with
  | nil => exact List.Sublist.slnil
  | cons p slots ih =>
    obtain ⟨name, slot⟩ := p
    cases slot with
    | none => exact ih.cons name
    | some v => exact ih.cons_cons name

theorem lookup_written {slots : List (String × Option Json)}
    (distinct : (slots.map Prod.fst).Nodup) (name : String) :
    (written slots).lookup name = (slots.lookup name).join := by
  induction slots with
  | nil => rfl
  | cons p slots ih =>
    obtain ⟨n, slot⟩ := p
    obtain ⟨hn, hslots⟩ : n ∉ slots.map Prod.fst ∧ (slots.map Prod.fst).Nodup :=
      List.nodup_cons.mp distinct
    rw [written_cons, List.lookup_append, ih hslots, List.lookup_cons]
    by_cases hname : name = n
    · subst hname
      have hne : ∀ p ∈ slots, name ≠ p.1 := fun p hp heq => hn (heq ▸ List.mem_map_of_mem hp)
      have hnone : slots.lookup name = none :=
        List.lookup_eq_none_iff.mpr fun p hp => bne_iff_ne.mpr (hne p hp)
      cases slot <;> simp [hnone]
    · have hbeq : (name == n) = false := beq_false_of_ne hname
      cases slot <;> simp [List.lookup_cons, hbeq]

variable {o : OptionSpec}

def slots (o : OptionSpec) : List (String × Option Json) := [
  ("name", some (.text o.name)),
  ("aliases", if o.aliases.isEmpty then none else some (.array (o.aliases.map .text))),
  ("description", if o.description = "" then none else some (.text o.description)),
  ("type", some (.text o.type.name)),
  ("required", if o.required then some (.bool true) else none),
  ("default", if o.default = "" then none else some (.text o.default)),
  ("internal", if o.internal then some (.bool true) else none),
  ("annotation", if o.annotations.isEmpty then none else some (.object o.annotations))]

theorem toFields_eq (o : OptionSpec) : o.toFields = written o.slots := by
  have hunless : ∀ (p : Prop) [Decidable p] (name : String) (v : Json),
      (if p then [] else [(name, v)]) =
        ((if p then none else some v).map fun v => (name, v)).toList := by
    intro p _ name v
    split <;> rfl
  have hif : ∀ (b : Bool) (name : String) (v : Json),
      (if b then [(name, v)] else []) =
        ((if b then some v else none).map fun v => (name, v)).toList := by
    intro b name v
    cases b <;> rfl
  simp only [toFields, slots, written_cons, hunless, hif, List.append_assoc]
  simp [written]

theorem names_slots (o : OptionSpec) : o.slots.map Prod.fst = fieldNames := rfl

theorem distinct_slots (o : OptionSpec) : (o.slots.map Prod.fst).Nodup := by
  rw [names_slots]
  decide

theorem distinct_toFields (o : OptionSpec) : (o.toFields.map Prod.fst).Nodup := by
  rw [toFields_eq]
  exact o.distinct_slots.sublist (names_written o.slots)

section Reading
variable {name : String} {v : Json}

theorem lookup_fields (o : OptionSpec) (name : String) :
    (fieldTrees o.toFields).lookup name = ((o.slots.lookup name).join).map Json.tree := by
  rw [lookup_fieldTrees, toFields_eq, lookup_written o.distinct_slots]

theorem field?_tree (hslot : (o.slots.lookup name).join = some v) {α : Type}
    {read : Tree → Option α} {a : Option α} (hread : read v.tree = a) :
    Tree.field? (fieldTrees o.toFields) name read = a := by
  rw [Tree.field?, lookup_fields, hslot]
  exact hread

/-- A field that is left out has to start as what was left out. -/
theorem fieldOr_tree {p : Prop} [Decidable p]
    (hslot : (o.slots.lookup name).join = if p then none else some v) {α : Type} {start : α}
    {read : Tree → Option α} {a : Option α} (hstart : p → some start = a)
    (hread : read v.tree = a) : fieldOr (fieldTrees o.toFields) name start read = a := by
  rw [fieldOr, lookup_fields, hslot]
  split_ifs with hp
  · exact hstart hp
  · exact hread

theorem fieldOr_tree_text {s : String}
    (hslot : (o.slots.lookup name).join = if s = "" then none else some (.text s)) :
    fieldOr (fieldTrees o.toFields) name "" text? = some s :=
  fieldOr_tree hslot (fun hempty => congrArg some hempty.symm) rfl

theorem fieldOr_tree_bool {b : Bool}
    (hslot : (o.slots.lookup name).join = if b then some (.bool true) else none) :
    fieldOr (fieldTrees o.toFields) name false bool? = some b := by
  rw [fieldOr, lookup_fields, hslot]
  cases b <;> rfl

theorem type_tree (o : OptionSpec) :
    fieldOr (fieldTrees o.toFields) "type" .string
      (fun t => t.text?.bind OptionType.ofNameOrEmpty?) = some o.type := by
  have hname : o.type.name ≠ "" := by cases o.type <;> decide
  refine fieldOr_tree (p := False) rfl False.elim ?_
  exact (if_neg hname).trans o.type.ofName?_name

theorem aliases_tree (o : OptionSpec) :
    fieldOr (fieldTrees o.toFields) "aliases" []
      (fun t => t.items?.bind (readAll text?)) = some o.aliases := by
  refine fieldOr_tree rfl (fun hempty => ?_) ?_
  · rw [List.isEmpty_iff.mp hempty]
  · have hread : readAll text? (o.aliases.map fun s => (Json.text s).tree) = some o.aliases :=
      readAll_map_some fun _ _ => rfl
    rw [Json.tree, trees_eq_map, List.map_map]
    exact hread

theorem annotations_tree (h : (Json.object o.annotations).Ordered) (depth : Nat) :
    fieldOr (fieldTrees o.toFields) "annotation" [] (fun t =>
      match t with
      | .object entries => (valueFields? depth entries).map Keyed.ofList
      | _ => none) =
      if depthOfFields o.annotations ≤ depth then some o.annotations else none := by
  refine fieldOr_tree rfl (fun hempty => ?_) ?_
  · rw [List.isEmpty_iff.mp hempty, depthOfFields, if_pos (Nat.zero_le _)]
  · cases h with
    | object hordered hvalues =>
      rw [Json.tree]
      dsimp only
      rw [valueFields?_treeFields fun p hp => (hvalues p hp).value?_tree depth]
      split_ifs
      · rw [Option.map_some, Keyed.ofList_eq hordered]
      · rfl

theorem ofTree?_tree (h : (Json.object o.annotations).Ordered) (depth : Nat) (exact : Bool) :
    ofTree? depth exact o.toJson.tree =
      if depthOfFields o.annotations ≤ depth then some o else none := by
  have hname : Tree.field? (fieldTrees o.toFields) "name" text? = some o.name :=
    field?_tree rfl rfl
  have hdescription : fieldOr (fieldTrees o.toFields) "description" "" text? =
      some o.description := fieldOr_tree_text rfl
  have hrequired : fieldOr (fieldTrees o.toFields) "required" false bool? = some o.required :=
    fieldOr_tree_bool rfl
  have hdefault : fieldOr (fieldTrees o.toFields) "default" "" text? = some o.default :=
    fieldOr_tree_text rfl
  have hinternal : fieldOr (fieldTrees o.toFields) "internal" false bool? = some o.internal :=
    fieldOr_tree_bool rfl
  rw [toJson, ofTree?, record?_tree o.distinct_toFields]
  simp only [Option.bind_eq_bind, Option.bind_some, hname, o.aliases_tree, hdescription,
    o.type_tree, hrequired, hdefault, hinternal]
  -- the reader of the annotations is a match, which is the same as that of the lemma only unfolded
  refine (congrArg (Option.bind · _) (annotations_tree h depth)).trans ?_
  split_ifs <;> rfl

end Reading

/-- The annotations hold no floating point numbers, and are kept in order. -/
structure PlainAnnotations (o : OptionSpec) : Prop where
  floatless : (Json.object o.annotations).Floatless
  ordered : (Json.object o.annotations).Ordered

theorem PlainAnnotations.of_nil (h : o.annotations = []) : o.PlainAnnotations where
  floatless := h ▸ .object fun _ hp => nomatch hp
  ordered := h ▸ .object List.Pairwise.nil fun _ hp => nomatch hp

theorem forall_toFields {P : Json → Prop} (htext : ∀ s, P (.text s)) (hbool : P (.bool true))
    (haliases : P (.array (o.aliases.map .text)))
    (hannotations : o.annotations ≠ [] → P (.object o.annotations)) : ∀ p ∈ o.toFields, P p.2 := by
  rintro ⟨name, v⟩ hp
  rw [toFields_eq, mem_written] at hp
  simp only [slots, List.mem_cons, List.not_mem_nil, or_false, Prod.mk.injEq, eq_comm (a := some v),
    Option.ite_none_left_eq_some, Option.ite_none_right_eq_some, Option.some.injEq] at hp
  rcases hp with ⟨-, rfl⟩ | ⟨-, -, rfl⟩ | ⟨-, -, rfl⟩ | ⟨-, rfl⟩ | ⟨-, -, rfl⟩ | ⟨-, -, rfl⟩ |
    ⟨-, -, rfl⟩ | ⟨-, hsome, rfl⟩
  · exact htext o.name
  · exact haliases
  · exact htext o.description
  · exact htext o.type.name
  · exact hbool
  · exact htext o.default
  · exact hbool
  · exact hannotations (mt List.isEmpty_iff.mpr hsome)

theorem depth_toJson_le_iff {n : Nat} :
    o.toJson.depth ≤ n + 2 ↔ depthOfFields o.annotations ≤ n := by
  have haliases : depthOfItems (o.aliases.map .text) ≤ n := by
    rw [depthOfItems_le_iff]
    intro v hv
    obtain ⟨s, -, rfl⟩ := List.mem_map.mp hv
    exact Nat.zero_le n
  rw [toJson, Json.depth, ← Nat.add_assoc n 1 1, Nat.add_le_add_iff_right,
    depthOfFields_le_iff]
  constructor
  · intro h
    by_cases hnone : o.annotations = []
    · rw [hnone]
      exact Nat.zero_le n
    · have hmem : ("annotation", Json.object o.annotations) ∈ o.toFields := by
        rw [toFields_eq, mem_written]
        simp [slots, hnone]
      exact Nat.le_of_succ_le_succ (h _ hmem)
  · intro h
    exact forall_toFields (P := fun v => v.depth ≤ n + 1) (fun _ => Nat.zero_le _)
      (Nat.zero_le _) (Nat.succ_le_succ haliases) fun _ => Nat.succ_le_succ h

theorem PlainAnnotations.floatless_toJson (h : o.PlainAnnotations) : o.toJson.Floatless := by
  refine .object (forall_toFields .text (.bool true) (.array ?_) fun _ => h.floatless)
  intro v hv
  obtain ⟨s, -, rfl⟩ := List.mem_map.mp hv
  exact .text s

end OptionSpec

namespace SectionSpec
variable {s : SectionSpec}

def PlainAnnotations (s : SectionSpec) : Prop := ∀ o ∈ s.options, o.PlainAnnotations

theorem PlainAnnotations.floatless_toJson (h : s.PlainAnnotations) : s.toJson.Floatless := by
  refine .array fun v hv => ?_
  obtain ⟨o, ho, rfl⟩ := List.mem_map.mp hv
  exact (h o ho).floatless_toJson

theorem depth_toJson_le_iff {n : Nat} :
    s.toJson.depth ≤ n + 3 ↔ ∀ o ∈ s.options, depthOfFields o.annotations ≤ n := by
  rw [toJson, Json.depth, ← Nat.add_assoc n 2 1, Nat.add_le_add_iff_right, depthOfItems_le_iff,
    List.forall_mem_map]
  simp only [OptionSpec.depth_toJson_le_iff]

theorem ofTree?_tree (h : s.PlainAnnotations) (depth : Nat) (exact : Bool) :
    ofTree? depth exact s.toJson.tree = if s.toJson.depth ≤ depth + 3 then some s else none := by
  have hread : readAll (OptionSpec.ofTree? depth exact)
      (s.options.map fun o => o.toJson.tree) =
        if ∀ o ∈ s.options, depthOfFields o.annotations ≤ depth then some s.options else none :=
    readAll_map fun o ho => OptionSpec.ofTree?_tree (h o ho).ordered depth exact
  simp only [depth_toJson_le_iff]
  rw [toJson, ofTree?, Json.tree, trees_eq_map, List.map_map, items?, Option.bind_some]
  refine (congrArg (Option.map mk) hread).trans ?_
  split_ifs <;> rfl

end SectionSpec

namespace FileSpec
variable {spec : FileSpec}

def PlainAnnotations (spec : FileSpec) : Prop := ∀ p ∈ spec.sections, p.2.PlainAnnotations

theorem PlainAnnotations.floatless_toJson (h : spec.PlainAnnotations) :
    spec.toJson.Floatless := by
  refine .object fun q hq => ?_
  obtain ⟨p, hp, rfl⟩ := List.mem_map.mp hq
  exact (h p hp).floatless_toJson

theorem depth_toJson_le_iff {n : Nat} :
    spec.toJson.depth ≤ n + 1 ↔ ∀ p ∈ spec.sections, p.2.toJson.depth ≤ n := by
  rw [toJson, Json.depth, Nat.add_le_add_iff_right, depthOfFields_le_iff, List.forall_mem_map]

theorem ofTree?_tree (h : spec.PlainAnnotations) (hordered : spec.sections.Ordered) (depth : Nat)
    (exact : Bool) :
    ofTree? depth exact spec.toJson.tree =
      if spec.toJson.depth ≤ depth + 4 then some spec else none := by
  have hread : readAll (fun p : Option String × Tree => p.1.bind fun name =>
      (SectionSpec.ofTree? depth exact p.2).map fun s => (name, s))
      (spec.sections.map fun p => (some p.1, p.2.toJson.tree)) =
        if ∀ p ∈ spec.sections, p.2.toJson.depth ≤ depth + 3 then some spec.sections else none := by
    refine readAll_map fun p hp => ?_
    rw [Option.bind_some, SectionSpec.ofTree?_tree (h p hp)]
    split_ifs <;> rfl
  simp only [depth_toJson_le_iff (n := depth + 3)]
  rw [toJson, Json.tree, treeFields_eq_map, List.map_map]
  refine (congrArg (Option.map _) hread).trans ?_
  split_ifs
  · rw [Option.map_some, Keyed.ofList_eq hordered]
  · rfl

end FileSpec
end UnitFiles

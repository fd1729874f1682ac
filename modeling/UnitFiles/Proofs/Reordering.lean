import Mathlib.Data.List.FinRange
import Mathlib.Data.List.Sort
import UnitFiles.Proofs.MergeOutcome
import UnitFiles.Proofs.Precedence
import UnitFiles.Proofs.SectionMerging

/-! Drop-ins in another order. Only documents that give values to one option of one section have to
keep their order; the options that the merges leave may stand in another order, but each has the
same values. -/
namespace UnitFiles
open Text

def Document.mentions (d : Document) (name option : String) : Bool :=
  d.sections.any fun s => sameName s.name name && s.has option

/-- Some option of some section has values in both documents. -/
def Document.Meets (d e : Document) : Prop :=
  ∃ name option, d.mentions name option = true ∧ e.mentions name option = true

theorem Document.mentions_congr {name name' option option' : String}
    (hname : sameName name name' = true) (hoption : sameName option option' = true)
    (d : Document) : d.mentions name option = d.mentions name' option' := by
  simp only [mentions, Section.has, sameName_congr hname, sameName_congr hoption]

/-- Only what the first document itself has can be in both. -/
theorem Document.meets_iff {d e : Document} :
    d.Meets e ↔ ∃ s ∈ d.sections, ∃ x ∈ s.entries, e.mentions s.name x.name = true := by
  constructor
  · rintro ⟨name, option, hd, he⟩
    simp only [mentions, Section.has, List.any_eq_true, Bool.and_eq_true] at hd
    obtain ⟨s, hs, hname, x, hx, hoption⟩ := hd
    exact ⟨s, hs, x, hx, mentions_congr hname hoption e ▸ he⟩
  · rintro ⟨s, hs, x, hx, he⟩
    refine ⟨s.name, x.name, List.any_eq_true.mpr ⟨s, hs, ?_⟩, he⟩
    simpa [Section.has] using ⟨x, hx, sameName_refl x.name⟩

instance (d e : Document) : Decidable (d.Meets e) := decidable_of_iff' _ Document.meets_iff

/-- The same documents in another order, except that documents which meet keep theirs. -/
def Reordered (ds es : List Document) : Prop :=
  ∃ place : Fin ds.length ≃ Fin es.length, (∀ i, es[place i] = ds[i]) ∧
    ∀ i j, i < j → ds[i].Meets ds[j] → place i < place j

/-- What a filter keeps, by the positions of what it keeps. -/
theorem filter_eq_map_positions {α : Type} (l : List α) (p : α → Bool) :
    l.filter p = ((List.finRange l.length).filter fun i => p l[i]).map fun i => l[i] := by
  calc l.filter p = ((List.finRange l.length).map fun i => l[i]).filter p :=
        congrArg (List.filter p) (List.map_getElem_finRange l).symm
    _ = _ := List.filter_map

/-- Of documents that meet each other, both orders have the same ones in the same order. -/
theorem Reordered.filter_eq {ds es : List Document} (h : Reordered ds es) {p : Document → Bool}
    (hmeet : ∀ d e, p d = true → p e = true → d.Meets e) : ds.filter p = es.filter p := by
  obtain ⟨place, hplace, hkeep⟩ := h
  -- both are read off increasing lists of positions, and `place` takes the one to the other
  have hpositions : ((List.finRange ds.length).filter fun i => p ds[i]).map place =
      (List.finRange es.length).filter fun i => p es[i] := by
    have hds := (List.sortedLT_finRange ds.length).pairwise
    have hes := (List.sortedLT_finRange es.length).pairwise
    have hmapped : (((List.finRange ds.length).filter fun i => p ds[i]).map place).Pairwise
        (· < ·) := by
      rw [List.pairwise_map, List.pairwise_filter]
      refine hds.imp ?_
      intro i j hij hi hj
      exact hkeep i j hij (hmeet _ _ hi hj)
    refine hmapped.eq_of_mem_iff (hes.filter _) ?_
    intro k
    obtain ⟨i, rfl⟩ := place.surjective k
    have hi : es[place i] = ds[i] := hplace i
    simp only [List.mem_map, List.mem_filter, List.mem_finRange, true_and, hi]
    constructor
    · rintro ⟨j, hj, hji⟩
      rwa [← place.injective hji]
    · intro hi
      exact ⟨i, hi, rfl⟩
  rw [filter_eq_map_positions ds, filter_eq_map_positions es, ← hpositions, List.map_map]
  exact List.map_congr_left fun i _ => (hplace i).symm

theorem Reordered.mem_iff {ds es : List Document} (h : Reordered ds es) {d : Document} :
    d ∈ ds ↔ d ∈ es := by
  obtain ⟨place, hplace, -⟩ := h
  have hget : ∀ i, es.get (place i) = ds.get i := hplace
  constructor
  · intro hd
    obtain ⟨i, rfl⟩ := List.mem_iff_get.mp hd
    rw [← hget]
    exact es.get_mem (place i)
  · intro hd
    obtain ⟨k, rfl⟩ := List.mem_iff_get.mp hd
    obtain ⟨i, rfl⟩ := place.surjective k
    rw [hget]
    exact ds.get_mem i

/-- What does not hold anything that is looked for may be left out. -/
theorem filter_flatMap_filter {α β : Type} {g : α → List β} {p : α → Bool} {q : β → Bool}
    (h : ∀ a, p a = false → (g a).filter q = []) (l : List α) :
    (l.flatMap g).filter q = ((l.filter p).flatMap g).filter q := by
  induction l with
  | nil => rfl
  | cons a rest ih =>
    rw [List.flatMap_cons, List.filter_append, List.filter_cons]
    split
    · rw [List.flatMap_cons, List.filter_append, ih]
    · rename_i hp
      rw [h a (Bool.of_not_eq_true hp), List.nil_append, ih]

namespace FileSpec
variable {spec : FileSpec}

/-- Under one name, what becomes of a section depends only on the documents that mention it, in
their order. -/
theorem named_overlaid_reordered {ds es : List Document} (h : Reordered ds es) (s : Section)
    (option : String) :
    Entry.named option (spec.overlaid (ds.flatMap Document.sections) s).entries =
      Entry.named option (spec.overlaid (es.flatMap Document.sections) s).entries := by
  have hmentioned : ∀ all : List Document,
      (Section.called s.name (all.flatMap Document.sections)).filter (fun d => d.has option) =
        (((all.filter fun d => d.mentions s.name option).flatMap Document.sections).filter
          fun d => d.has option && sameName d.name s.name) := by
    intro all
    rw [Section.called, List.filter_filter]
    apply filter_flatMap_filter
    intro d hd
    simpa [Document.mentions, and_comm] using hd
  have hsame : (ds.filter fun d => d.mentions s.name option) =
      es.filter fun d => d.mentions s.name option :=
    h.filter_eq fun d e hd he => ⟨s.name, option, hd, he⟩
  rw [overlaid, overlaid]
  cases spec.get? s.name with
  | none => rfl
  | some options =>
    dsimp only
    rw [Section.named_mergeEach_filter rfl, hmentioned, hsame, ← hmentioned,
      ← Section.named_mergeEach_filter rfl]

/-- Drop-ins can be merged in one order exactly when they can be merged in the other, and both
leave the same sections with the same values. -/
theorem mergeDropIns_reordered {d : Document} {ds es : List Document} (h : Reordered ds es) :
    ((∃ merged, spec.mergeDropIns d ds = .ok merged) ↔
      ∃ merged, spec.mergeDropIns d es = .ok merged) ∧
    ∀ merged merged', spec.mergeDropIns d ds = .ok merged → spec.mergeDropIns d es = .ok merged' →
      merged.path = merged'.path ∧
      List.Forall₂ (fun s s' => s.name = s'.name ∧ ∀ option, s.values option = s'.values option)
        merged.sections merged'.sections := by
  constructor
  · have hmerged : ∀ all : List Document, (∃ merged, spec.mergeDropIns d all = .ok merged) ↔
        ∀ s ∈ all.flatMap Document.sections, spec.Takes d.sections s := by
      intro all
      rw [← exists_mergeAll_eq_ok_iff]
      simp [mergeDropIns, map_eq_ok_iff]
    rw [hmerged, hmerged]
    simp only [List.mem_flatMap, h.mem_iff]
  · intro merged merged' hds hes
    rw [mergeDropIns_eq_map hds, mergeDropIns_eq_map hes]
    refine ⟨rfl, ?_⟩
    rw [List.forall₂_map_left_iff, List.forall₂_map_right_iff, List.forall₂_same]
    intro s _
    refine ⟨by simp, fun option => ?_⟩
    rw [Section.values_eq, Section.values_eq, named_overlaid_reordered h]

def taggedUnit : Document := ⟨"web.unit", [⟨"Test", [⟨"Tags", "base"⟩, ⟨"Count", "1"⟩]⟩]⟩

def addsTag : Document := ⟨"10-a.conf", [⟨"TEST", [⟨"Tags", "a"⟩]⟩]⟩

def setsCount : Document := ⟨"20-b.conf", [⟨"Test", [⟨"COUNT", "6"⟩]⟩]⟩

def replacesTags : Document := ⟨"30-c.conf", [⟨"test", [⟨"tags", ""⟩, ⟨"TAGS", "c"⟩]⟩]⟩

/-- The drop-ins that set `Tags` keep their order. The one that sets `Count` moves to the end, and
so does its option. -/
theorem mergeDropIns_reordered_tags :
    Reordered [addsTag, setsCount, replacesTags] [addsTag, replacesTags, setsCount] ∧
      ∃ merged merged',
        Sources.sampleSpec.mergeDropIns taggedUnit [addsTag, setsCount, replacesTags] =
          .ok merged ∧
        Sources.sampleSpec.mergeDropIns taggedUnit [addsTag, replacesTags, setsCount] =
          .ok merged' ∧
        merged ≠ merged' ∧
        List.Forall₂ (fun s s' => s.name = s'.name ∧ ∀ option, s.values option = s'.values option)
          merged.sections merged'.sections := by
  have h : Reordered [addsTag, setsCount, replacesTags] [addsTag, replacesTags, setsCount] :=
    ⟨Equiv.swap 1 2, by decide +kernel, by decide +kernel⟩
  have hfirst : Sources.sampleSpec.mergeDropIns taggedUnit [addsTag, setsCount, replacesTags] =
      .ok ⟨"web.unit", [⟨"Test", [⟨"COUNT", "6"⟩, ⟨"TAGS", "c"⟩]⟩]⟩ := by decide +kernel
  have hsecond : Sources.sampleSpec.mergeDropIns taggedUnit [addsTag, replacesTags, setsCount] =
      .ok ⟨"web.unit", [⟨"Test", [⟨"TAGS", "c"⟩, ⟨"COUNT", "6"⟩]⟩]⟩ := by decide +kernel
  exact ⟨h, _, _, hfirst, hsecond, by decide, ((mergeDropIns_reordered h).2 _ _ hfirst hsecond).2⟩

end FileSpec

end UnitFiles
